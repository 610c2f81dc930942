import Oseo.PropertyStorage.Definitions
import Oseo.Library.Runs

/-!
# Reading and writing properties

[[Get]], [[Set]] and [[SetPrototypeOf]], the properties of a String wrapper, and the property
caches of generated code (`runtime_property.c`, `runtime_object.c`, `runtime_string.c`).

A walk along the prototype chain takes `steps`; it has no result where the chain is longer.
-/

namespace Oseo.PropertyStorage

/-! ## Reading -/

/-- `is_callable`. -/
def isCallable (h : Heap) : Value → Bool
  | .object o =>
    (h.object o).kind = .function || ((h.object o).kind = .proxy && (h.object o).proxyCallable)
  | _ => false

/-- What `object_get` does with the descriptor it finds. -/
def getDescriptor (h : Heap) (o : ℕ) (key : PropertyKey) (receiver : Value)
    (descriptor : Descriptor) : Outcome :=
  if descriptor.attributes.accessor then
    if !isCallable h descriptor.getter then .normal .undefined
    else .getterCall descriptor.getter receiver
  else if cellBackedProperty (h.object o) descriptor.value then
    match cellGet h descriptor.value with
    | .error outcome => outcome
    | .ok value => .normal value
  else if descriptor.value = .object o && legacyLiveKey (h.object o) key = some .arguments then
    if (h.latestActivation o).isNone then .normal .null else .legacyArguments o
  else .normal descriptor.value

/-- `object_get` of an object's property. -/
def objectGetFrom (canonical : List ℕ → Bool) (h : Heap) (key : PropertyKey)
    (receiver : Value) : ℕ → Value → Option Outcome
  | 0, _ => none
  | steps + 1, .object o =>
    if (h.object o).kind = .proxy then some (.proxyTrap o)
    else if (h.object o).kind = .typedArray && typedArrayNumericKey canonical key then
      some (.typedArrayElement o)
    else match ownPropertyDescriptor h o key with
      | some descriptor => some (getDescriptor h o key receiver descriptor)
      | none => objectGetFrom canonical h key receiver steps (h.object o).prototype
  | _ + 1, _ => some (.normal .undefined)

/-- `oseo_object_get` on an object. -/
def objectGet (canonical : List ℕ → Bool) (h : Heap) (steps : ℕ) (o : ℕ)
    (key : PropertyKey) : Option Outcome :=
  objectGetFrom canonical h key (.object o) steps (.object o)

/-! ## Writing -/

/-- A refusal that strict code sees as a `TypeError`. -/
def refuseSet (strict : Bool) (message : String) (value : Value) : Outcome :=
  if strict then .typeError message else .normal value

/-- Where the walk of `oseo_object_set` ends: with the answer, at a property of the receiver's
vector, at its virtual String iterator, or past all own properties of the key. -/
inductive SetWalk
  | answered (outcome : Outcome)
  | slot (index : ℕ)
  | virtual (attributes : OseoPropertyAttributes)
  | absent

/-- What the walk of `oseo_object_set` does with a descriptor of `current`. -/
def setDescriptor (h : Heap) (receiver : ℕ) (key : PropertyKey) (value : Value) (strict : Bool)
    (current : ℕ) (descriptor : Descriptor) : SetWalk :=
  if descriptor.attributes.accessor then
    if !isCallable h descriptor.setter then
      .answered (refuseSet strict "Cannot set a property that has only a getter." value)
    else .answered (.setterCall descriptor.setter (.object receiver) value)
  else if !descriptor.attributes.writable then
    .answered (refuseSet strict "Cannot assign to a read-only property." value)
  else match ownPropertyIndex (h.object current) key with
    | none =>
      if current = receiver then
        match virtualStringIteratorDescriptor h current key with
        | some attributes => .virtual attributes
        | none => .absent
      else .absent
    | some index => if current = receiver then .slot index else .absent

/-- The walk of `oseo_object_set`. `hasIndex` says whether a TypedArray has the element of a
numeric key. -/
def objectSetWalk (canonical : List ℕ → Bool) (hasIndex : ℕ → PropertyKey → Bool) (h : Heap)
    (receiver : ℕ) (key : PropertyKey) (value : Value) (strict : Bool) :
    ℕ → Value → Option SetWalk
  | 0, _ => none
  | steps + 1, .object current =>
    let owner := h.object current
    if owner.kind = .proxy then some (.answered (.proxyTrap current))
    else if owner.moduleNamespace then
      some (.answered (refuseSet strict "Cannot assign to a module namespace property." value))
    else if owner.kind = .typedArray && typedArrayNumericKey canonical key then
      if current = receiver then some (.answered (.typedArrayElement current))
      else if !hasIndex current key then some (.answered (.normal value))
      else some .absent
    else match ownPropertyDescriptor h current key with
      | some descriptor => some (setDescriptor h receiver key value strict current descriptor)
      | none => objectSetWalk canonical hasIndex h receiver key value strict steps owner.prototype
  | _ + 1, _ => some .absent

/-- The append of `oseo_object_set`. -/
def setAbsent (h : Heap) (o : ℕ) (key : PropertyKey) (value : Value) (strict : Bool)
    (memory : Memory) : Heap × Outcome :=
  let receiver := h.object o
  if !receiver.extensible then
    (h, refuseSet strict "Cannot add a property to a non-extensible object." value)
  else if extendsArray receiver key && !receiver.lengthWritable then
    (h, refuseSet strict "Cannot extend an array with a read-only length." value)
  else match localSymbol memory key with
    | .error outcome => (h, outcome)
    | .ok key =>
      match growProperties receiver memory with
      | .error outcome => (h, outcome)
      | .ok grown =>
        ((h.setObject o fun _ => appendProperty grown false
            ⟨⟨true, true, true, false⟩, key, value, .undefined, .undefined⟩).newShape o,
          .normal value)

/-- The write of `oseo_object_set` to a slot of the receiver. -/
def setSlot (h : Heap) (o : ℕ) (index : ℕ) (value : Value) : Heap × Outcome :=
  match (h.object o).properties[index]? with
  | none => (h, .normal value)
  | some property =>
    if cellBackedProperty (h.object o) property.value then cellSet h property.value value
    else
      (h.setObject o fun object => redefineProperty object index { property with value },
        .normal value)

/-- `oseo_object_set` on an object that is not the realm's lexical environment, from the checks of
the receiver on. -/
def setOrdinary (canonical : List ℕ → Bool) (hasIndex : ℕ → PropertyKey → Bool) (h : Heap)
    (steps : ℕ) (o : ℕ) (key : PropertyKey) (value : Value) (strict : Bool) (memory : Memory) :
    Option (Heap × Outcome) :=
  let receiver := h.object o
  if receiver.kind = .proxy then some (h, .proxyTrap o)
  else if receiver.moduleNamespace then
    some (h, refuseSet strict "Cannot assign to a module namespace property." value)
  else if functionHasPrototypeProperty receiver && key = prototypeKey then
    if !receiver.prototypeWritable then
      some (h, refuseSet strict "Cannot assign to the read-only prototype property." value)
    else some (h.setObject o fun function => { function with prototypeObject := value },
      .normal value)
  else if receiver.kind = .array && key = lengthKey then
    some (h, setArrayLength h o value strict false)
  else (objectSetWalk canonical hasIndex h o key value strict steps (.object o)).map fun walk =>
    match walk with
    | .answered outcome => (h, outcome)
    | .slot index => setSlot h o index value
    | .virtual attributes =>
      match defineDataReported canonical h o key value attributes true false
          (.ok 0) memory with
      | (h, .normal _) => (h, .normal value)
      | (h, .refused message) => (h, .typeError message)
      | defined => defined
    | .absent => setAbsent h o key value strict memory

/-- `oseo_object_set` on an object. -/
def objectSet (canonical : List ℕ → Bool) (hasIndex : ℕ → PropertyKey → Bool) (h : Heap)
    (steps : ℕ) (o : ℕ) (key : PropertyKey) (value : Value) (strict : Bool) (memory : Memory) :
    Option (Heap × Outcome) :=
  let lexical := if h.globalLexicals = some o then
      (ownPropertyIndex (h.object o) key).bind fun index => (h.object o).properties[index]?
    else none
  match lexical with
  | some property =>
    match cellGet h property.value with
    | .error outcome => some (h, outcome)
    | .ok _ =>
      if !property.attributes.writable then
        some (h, .typeError "Assignment to a constant binding.")
      else some (cellSet h property.value value)
  | none => setOrdinary canonical hasIndex h steps o key value strict memory

/-! ## Prototypes -/

/-- The check of `oseo_internal_set_prototype_reported` for a cycle. -/
def prototypeReaches (h : Heap) (o : ℕ) : ℕ → Value → Option Bool
  | 0, _ => none
  | steps + 1, .object current =>
    if current = o then some true else prototypeReaches h o steps (h.object current).prototype
  | _ + 1, _ => some false

/-- `oseo_internal_set_prototype_reported`. -/
def setPrototype (h : Heap) (steps : ℕ) (o : ℕ) (prototype : Value) : Option (Heap × Outcome) :=
  let object := h.object o
  if object.kind = .proxy then some (h, .proxyTrap o)
  else if object.moduleNamespace || object.immutablePrototype then
    some (h, if sameValue prototype object.prototype then .normal (.object o)
      else .refused (if object.moduleNamespace then "Cannot change a namespace prototype."
        else "Cannot change an immutable prototype."))
  else if object.prototype = prototype then some (h, .normal (.object o))
  else if !object.extensible then
    some (h, .refused "Cannot change a non-extensible object's prototype.")
  else (prototypeReaches h o steps prototype).map fun cyclic =>
    if cyclic then (h, .refused "Cyclic prototype chains are not allowed.")
    else ((h.setObject o fun object => { object with prototype }).newDictionary o,
      .normal (.object o))

/-- `relink_prototype`, for an object that has just been created. -/
def relinkPrototype (h : Heap) (o : ℕ) (prototype : Value) : Heap :=
  (h.setObject o fun object => { object with prototype }).newShape o

/-! ## String wrappers -/

/-- `string_wrapper_may_append`. -/
def stringWrapperMayAppend (object : OseoOrdinaryObject) : Bool :=
  object.kind ≠ .array && object.kind ≠ .function && object.extensible &&
    !object.moduleNamespace && object.properties.isEmpty

/-- `define_wrapper_property`. -/
def defineWrapperProperty (canonical : List ℕ → Bool) (append : Bool) (h : Heap) (o : ℕ)
    (key : PropertyKey) (value : Value) (attributes : OseoPropertyAttributes) (memory : Memory) :
    Heap × Outcome :=
  if append then appendOwnProperty h o key value attributes memory
  else match defineDataReported canonical h o key value attributes true false (.ok 0) memory with
    | (h, .refused message) => (h, .typeError message)
    | defined => defined

/-- The loop of `oseo_internal_string_wrapper_properties` over the units from `index` on, and the
definition of `length`. -/
def stringWrapperFrom (canonical : List ℕ → Bool) (append : Bool) (o : ℕ)
    (memory : ℕ → Memory) : ℕ → List ℕ → Heap → Heap × Outcome
  | index, [], h =>
    defineWrapperProperty canonical append h o lengthKey (lengthNumber index)
      ⟨false, false, false, false⟩ (memory index)
  | index, unit :: rest, h =>
    match (memory index).keyString with
    | .error outcome => (h, outcome)
    | .ok _ =>
      match defineWrapperProperty canonical append h o (arrayIndexKey index) (.string [unit])
          ⟨false, true, false, false⟩ (memory index) with
      | (h, .normal _) => stringWrapperFrom canonical append o memory (index + 1) rest h
      | failed => failed

/-- `oseo_internal_string_wrapper_properties`. -/
def stringWrapperProperties (canonical : List ℕ → Bool) (h : Heap) (o : ℕ) (units : List ℕ)
    (memory : ℕ → Memory) : Heap × Outcome :=
  stringWrapperFrom canonical (stringWrapperMayAppend (h.object o)) o memory 0 units h

/-! ## Property caches -/

/-- `OseoPropertyCache`. -/
structure OseoPropertyCache where
  shapeId : ℕ
  slot : ℕ
deriving DecidableEq

/-- `oseo_property_cache_matches`. -/
def propertyCacheMatches (h : Heap) (value : Value) (cache : OseoPropertyCache) : Bool :=
  match value with
  | .object o =>
    !(h.object o).dictionary && cache.shapeId ≠ 0 && cache.shapeId = (h.object o).shapeId &&
      cache.slot < (h.object o).properties.length
  | _ => false

/-- `oseo_property_cache_load`. -/
def propertyCacheLoad (h : Heap) (value : Value) (cache : OseoPropertyCache) : Value :=
  match value with
  | .object o =>
    match (h.object o).properties[cache.slot]? with
    | none => .undefined
    | some property => property.value
  | _ => .undefined

/-- `oseo_property_cache_update`. -/
def propertyCacheUpdate (h : Heap) (value : Value) (key : PropertyKey) : OseoPropertyCache :=
  match value with
  | .object o =>
    let object := h.object o
    match ownPropertyIndex object key with
    | none => ⟨0, 0⟩
    | some slot =>
      match object.properties[slot]? with
      | none => ⟨0, 0⟩
      | some property =>
        if !object.dictionary && !property.attributes.accessor &&
            !cellBackedProperty object property.value then ⟨object.shapeId, slot⟩
        else ⟨0, 0⟩
  | _ => ⟨0, 0⟩

/-! ## The generic path of an assignment

[[Set]] with a receiver (`oseo_internal_set_with_receiver`): the walk over the base object only
decides whether a setter runs, and the write goes through a definition on the receiver.

Beside it stands the direct path (`oseo_object_set`) with the conversion of an array length, and
what it means that the two paths agree.
-/

/-! ## The generic path -/

/-- Where the walk over the base object ends: with the answer, or with a write to the receiver. -/
inductive BaseWalk
  | answered (outcome : Outcome)
  | receiver

/-- What the walk does with a descriptor. -/
def baseDescriptor (h : Heap) (receiver value : Value) (descriptor : Descriptor) : BaseWalk :=
  if descriptor.attributes.accessor then
    if !isCallable h descriptor.setter then
      .answered (.refused "Cannot set a property that has only a getter.")
    else .answered (.setterCall descriptor.setter receiver value)
  else if !descriptor.attributes.writable then
    .answered (.refused "Cannot assign to a read-only property.")
  else .receiver

/-- The walk of `oseo_internal_set_with_receiver`. `hasIndex` says whether a TypedArray has the
element of a numeric key. -/
def baseWalk (canonical : List ℕ → Bool) (hasIndex : ℕ → PropertyKey → Bool) (h : Heap)
    (key : PropertyKey) (value receiver : Value) : ℕ → Value → Option BaseWalk
  | 0, _ => none
  | steps + 1, .object current =>
    let owner := h.object current
    if owner.kind = .proxy then some (.answered (.proxyTrap current))
    else if owner.moduleNamespace then
      some (.answered (.refused "Cannot assign to a module namespace property."))
    else if owner.kind = .typedArray && typedArrayNumericKey canonical key then
      if .object current = receiver then some (.answered (.typedArrayElement current))
      else if !hasIndex current key then some (.answered (.normal value))
      else some .receiver
    else match ownPropertyDescriptor h current key with
      | some descriptor => some (baseDescriptor h receiver value descriptor)
      | none => baseWalk canonical hasIndex h key value receiver steps owner.prototype
  | _ + 1, _ => some .receiver

/-- `oseo_internal_namespace_export_ready`. -/
def namespaceExportReady (h : Heap) (o : ℕ) (stored : Value) : Except Outcome Unit :=
  if !(h.object o).moduleNamespace || !stored.isCell then .ok ()
  else (cellGet h stored).map fun _ => ()

/-- The end of an assignment through a definition, which may have refused it. -/
def assigned (value : Value) : Heap × Outcome → Heap × Outcome
  | (h, .normal _) => (h, .normal value)
  | defined => defined

/-- `oseo_internal_define_data_reported` with a value, and with the conversion of an array
length. -/
def defineDataConverting (canonical : List ℕ → Bool) (first second : Conversion) (h : Heap)
    (o : ℕ) (key : PropertyKey) (value : Value) (attributes : OseoPropertyAttributes)
    (absentWritable : Bool) (memory : Memory) : Heap × Outcome :=
  if (h.object o).kind = .array && key = lengthKey then
    match toArrayLength first second h with
    | (h, .error outcome) => (h, outcome)
    | (h, .ok requested) =>
      assigned value (defineArrayLength h o value attributes true absentWritable (.ok requested))
  else
    assigned value (defineDataReported canonical h o key value attributes true absentWritable
      (.ok 0) memory)

/-- The end of `oseo_internal_set_with_receiver`: the write to the receiver. -/
def setReceiver (canonical : List ℕ → Bool) (first second : Conversion) (h : Heap)
    (key : PropertyKey) (value : Value) (memory : Memory) : Value → Heap × Outcome
  | .object o =>
    if (h.object o).kind = .proxy then (h, .proxyTrap o)
    else match ownPropertyDescriptor h o key with
      | some descriptor =>
        match namespaceExportReady h o descriptor.value with
        | .error outcome => (h, outcome)
        | .ok _ =>
          if descriptor.attributes.accessor then
            (h, .refused "Cannot assign to an accessor property of the receiver.")
          else if !descriptor.attributes.writable then
            (h, .refused "Cannot assign to a read-only property.")
          else
            -- The definition keeps every other attribute the property has.
            defineDataConverting canonical first second h o key value
              { descriptor.attributes with accessor := false } true memory
      | none =>
        defineDataConverting canonical first second h o key value ⟨true, true, true, false⟩ false
          memory
  | _ => (h, .refused "Cannot set properties of a nullish or primitive value.")

/-- `oseo_internal_set_with_receiver`. -/
def setWithReceiver (canonical : List ℕ → Bool) (hasIndex : ℕ → PropertyKey → Bool)
    (first second : Conversion) (h : Heap) (steps : ℕ) (base : Value) (key : PropertyKey)
    (value receiver : Value) (memory : Memory) : Option (Heap × Outcome) :=
  (baseWalk canonical hasIndex h key value receiver steps base).map fun walk =>
    match walk with
    | .answered outcome => (h, outcome)
    | .receiver => setReceiver canonical first second h key value memory receiver

/-! ## The direct path -/

/-- `oseo_object_set`, with the conversion of an array length. -/
def objectSetConverting (canonical : List ℕ → Bool) (hasIndex : ℕ → PropertyKey → Bool)
    (first second : Conversion) (h : Heap) (steps : ℕ) (o : ℕ) (key : PropertyKey) (value : Value)
    (strict : Bool) (memory : Memory) : Option (Heap × Outcome) :=
  (objectSet canonical hasIndex h steps o key value strict memory).map fun set =>
    match set with
    | (h, .lengthConversion) =>
      match toArrayLength first second h with
      | (h, .error outcome) => (h, outcome)
      | (h, .ok requested) => setArrayLengthConverted h o value requested strict false
    | set => set

/-! ## Agreement -/

/-- A property as its descriptor shows it: the halves of an accessor, or the value. -/
def OseoProperty.shown (property : OseoProperty) : OseoProperty :=
  if property.attributes.accessor then { property with value := .undefined }
  else { property with getter := .undefined, setter := .undefined }

/-- An object without the identity of its shape, which only property caches read. -/
def OseoOrdinaryObject.shown (object : OseoOrdinaryObject) : OseoOrdinaryObject :=
  { object with
    properties := object.properties.map OseoProperty.shown
    shapeId := 0
    dictionary := false }

/-- The direct path reports what the generic path reports. A refusal is a `TypeError` in strict code
and nothing elsewhere. -/
def ReportsAlike (strict : Bool) (value : Value) (direct generic : Outcome) : Prop :=
  direct = generic ∨ ∃ message, generic = .refused message ∧
    if strict then ∃ message', direct = .typeError message' else direct = .normal value

/-- Two ends of an assignment that a program cannot tell apart. -/
structure Agrees (strict : Bool) (value : Value) (direct generic : Heap × Outcome) : Prop where
  objects : ∀ o, (direct.1.object o).shown = (generic.1.object o).shown
  bindings : ∀ c, (direct.1.cell c).value = (generic.1.cell c).value
  outcome : ReportsAlike strict value direct.2 generic.2

/-! ## Runs of object operations

The operations a program performs on its objects, one after the other, and what the rest of the
runtime does to the same fields. Code of the program that an operation calls (a getter, a setter,
a Proxy trap, the conversion of a length) takes steps of its own.
-/

open Oseo.KeyedCollections (Symbol)
open Oseo.Library

/-! ## Creation -/

/-- The fields every allocation starts with. -/
def emptyObject (kind : HeapKind) (prototype : Value) : OseoOrdinaryObject where
  kind := kind
  prototype := prototype
  properties := []
  propertyCapacity := 0
  shapeId := 0
  arrayLength := 0
  dictionary := false
  lengthWritable := false
  extensible := true
  moduleNamespace := false
  immutablePrototype := false
  globalObject := false
  mappedArguments := false
  virtualStringIterator := false
  virtualStringIteratorConfigurable := false
  virtualStringIteratorEnumerable := false
  virtualStringIteratorWritable := false
  denseIndexBase := 0
  denseIndexCount := 0
  denseIndexKnown := true
  functionKind := .internal
  prototypeObject := .undefined
  prototypeWritable := false
  prototypeKeyPosition := 0
  legacyCallerLive := false
  legacyArgumentsLive := false
  legacyArgumentsPosition := 0
  proxyCallable := false

/-- A new object, with the next shape identifier. -/
def Heap.create (h : Heap) (object : OseoOrdinaryObject) : Heap :=
  { h with
    object := Function.update h.object h.nextObject { object with shapeId := h.nextShapeId }
    nextObject := h.nextObject + 1
    nextShapeId := h.nextShapeId + 1 }

/-- `object_create`, for the realm's global objects and for arguments objects with the flag the
caller sets on the new object. -/
def newObject (prototype : Value) (globalObject mappedArguments : Bool) : OseoOrdinaryObject :=
  { emptyObject .object prototype with globalObject, mappedArguments }

/-- `array_create_with_prototype`. -/
def newArray (prototype : Value) (length : ℕ) : OseoOrdinaryObject :=
  { emptyObject .array prototype with arrayLength := length, lengthWritable := true }

/-- `oseo_function_create` up to the definitions of `length` and `name`, which follow as
definitions. The synthetic keys of `oseo_function_create_non_strict` are other keys than these
two, and count as live from the start. -/
def newFunction (prototype : Value) (functionKind : OseoFunctionKind) (prototypeObject : Value)
    (nonStrict : Bool) : OseoOrdinaryObject :=
  { emptyObject .function prototype with
    functionKind, prototypeObject
    prototypeWritable := functionKind ≠ .classConstructor
    prototypeKeyPosition := 2
    legacyArgumentsPosition := 2
    legacyCallerLive := nonStrict && functionKind = .ordinary
    legacyArgumentsLive := nonStrict && functionKind = .ordinary }

/-- A Proxy, which is in dictionary mode. -/
def newProxy (proxyCallable : Bool) : OseoOrdinaryObject :=
  { emptyObject .proxy .null with dictionary := true, proxyCallable }

/-! ## Other writes to the fields of an object -/

/-- The flags a restriction takes away. -/
structure Restriction where
  extensible : Bool
  lengthWritable : Bool
  prototypeWritable : Bool
  virtualConfigurable : Bool
  virtualWritable : Bool

/-- [[PreventExtensions]], the flags of `object_set_integrity_level` that are no properties, and
those of template objects, intrinsic constructors and raw JSON objects. -/
def restrict (taken : Restriction) (object : OseoOrdinaryObject) : OseoOrdinaryObject :=
  { object with
    extensible := object.extensible && !taken.extensible
    lengthWritable := object.lengthWritable && !taken.lengthWritable
    prototypeWritable := object.prototypeWritable && !taken.prototypeWritable
    virtualStringIteratorConfigurable :=
      object.virtualStringIteratorConfigurable && !taken.virtualConfigurable
    virtualStringIteratorWritable :=
      object.virtualStringIteratorWritable && !taken.virtualWritable }

/-- The end of `oseo_module_namespace_create`. -/
def sealNamespace (object : OseoOrdinaryObject) : OseoOrdinaryObject :=
  { object with dictionary := true, extensible := false, moduleNamespace := true }

/-- The marks of `%String.prototype%`. -/
def markStringPrototype (object : OseoOrdinaryObject) : OseoOrdinaryObject :=
  { object with
    virtualStringIterator := true
    virtualStringIteratorConfigurable := true
    virtualStringIteratorEnumerable := false
    virtualStringIteratorWritable := true }

/-- A global function declaration redefines the attributes of the binding's property. -/
def declareGlobalFunction (h : Heap) (o : ℕ) (index : ℕ) (property : OseoProperty) : Heap :=
  (h.setObject o fun object =>
    { object with
      properties := object.properties.set index
        { property with attributes := ⟨false, true, true, false⟩ } }).newDictionary o

/-! ## Steps -/

/-- What a step of a program does. -/
inductive Operation
  | create (o : ℕ)
  | set (o : ℕ) (key : PropertyKey) (value : ProgramValue) (strict : Bool)
  | setLength (o : ℕ) (requested : ℕ) (strict : Bool)
  | append (o : ℕ) (value : ProgramValue)
  | appendHole (o : ℕ)
  | defineData (o : ℕ) (key : PropertyKey) (value : Value) (attributes : OseoPropertyAttributes)
  | defineAccessor (o : ℕ) (key : PropertyKey) (getter setter : Value)
  | delete (o : ℕ) (key : PropertyKey) (strict : Bool)
  | materialize (o : ℕ) (key : PropertyKey)
  | setPrototype (o : ℕ) (prototype : Value)
  | wrapString (o : ℕ) (units : List ℕ)
  | write (o : ℕ)
  | bind

/-- The steps of a program on its objects. -/
inductive Step (canonical : List ℕ → Bool) : Heap → Operation → Heap → Prop
  | objectCreate (h : Heap) (prototype : Value) (globalObject mappedArguments : Bool) :
    Step canonical h (.create h.nextObject)
      (h.create (newObject prototype globalObject mappedArguments))
  | arrayCreate (h : Heap) (prototype : Value) (length : ℕ) (hlength : length ≤ uint32Max) :
    Step canonical h (.create h.nextObject) (h.create (newArray prototype length))
  | functionCreate (h : Heap) (prototype : Value) (functionKind : OseoFunctionKind)
      (prototypeObject : Value) (nonStrict : Bool) :
    Step canonical h (.create h.nextObject)
      (h.create (newFunction prototype functionKind prototypeObject nonStrict))
  | proxyCreate (h : Heap) (proxyCallable : Bool) :
    Step canonical h (.create h.nextObject) (h.create (newProxy proxyCallable))
  | typedArrayCreate (h : Heap) (prototype : Value) :
    Step canonical h (.create h.nextObject) (h.create (emptyObject .typedArray prototype))
  | exoticCreate (h : Heap) (prototype : Value) :
    Step canonical h (.create h.nextObject) (h.create (emptyObject .other prototype))
  | set {h h' : Heap} {outcome : Outcome} (hasIndex : ℕ → PropertyKey → Bool) (steps : ℕ) (o : ℕ)
      (key : PropertyKey) (value : ProgramValue) (strict : Bool) (memory : Memory)
      (hset : objectSet canonical hasIndex h steps o key value strict memory =
        some (h', outcome)) :
    Step canonical h (.set o key value strict) h'
  | setLength (h : Heap) (o : ℕ) (value : Value) (requested : Fin (2 ^ 32)) (strict : Bool)
      (harray : (h.object o).kind = .array) :
    Step canonical h (.setLength o requested strict)
      (setArrayLengthConverted h o value requested strict false).1
  | append (h : Heap) (o : ℕ) (value : ProgramValue) (memory : Memory) :
    Step canonical h (.append o value) (arrayAppend h o value memory).1
  | appendHole (h : Heap) (o : ℕ) :
    Step canonical h (.appendHole o) (arrayAppendHole h o).1
  | defineData (h : Heap) (o : ℕ) (key : PropertyKey) (value : Value)
      (attributes : OseoPropertyAttributes) (hasValue absentWritable : Bool)
      (converted : Except Outcome (Fin (2 ^ 32))) (memory : Memory) :
    Step canonical h (.defineData o key value attributes)
      (defineDataReported canonical h o key value attributes hasValue absentWritable converted
        memory).1
  | defineAccessor (h : Heap) (o : ℕ) (key : PropertyKey) (getter setter : Value)
      (hasGetter hasSetter : Bool) (attributes : OseoPropertyAttributes) (memory : Memory) :
    Step canonical h (.defineAccessor o key getter setter)
      (defineAccessorReported canonical h o key getter setter hasGetter hasSetter attributes
        memory).1
  | delete (hasIndex : PropertyKey → Bool) (h : Heap) (o : ℕ) (key : PropertyKey)
      (strict : Bool) :
    Step canonical h (.delete o key strict) (objectDelete canonical hasIndex h o key strict).1
  | materialize {h h' : Heap} (o : ℕ) (key : PropertyKey) (memory : Memory)
      (hmaterialize : legacyMaterialize h o key memory = .ok h') :
    Step canonical h (.materialize o key) h'
  | setPrototype {h h' : Heap} {outcome : Outcome} (steps : ℕ) (o : ℕ) (prototype : Value)
      (hset : PropertyStorage.setPrototype h steps o prototype = some (h', outcome)) :
    Step canonical h (.setPrototype o prototype) h'
  | relinkPrototype (h : Heap) (o : ℕ) (prototype : Value) :
    Step canonical h (.setPrototype o prototype) (PropertyStorage.relinkPrototype h o prototype)
  | wrapString (h : Heap) (o : ℕ) (units : List ℕ) (memory : ℕ → Memory)
      (hwrapper : (h.object o).kind = .object) :
    Step canonical h (.wrapString o units) (stringWrapperProperties canonical h o units memory).1
  | restrict (h : Heap) (o : ℕ) (taken : Restriction) :
    Step canonical h (.write o) (h.setObject o (PropertyStorage.restrict taken))
  | fixPrototype (h : Heap) (o : ℕ) :
    Step canonical h (.write o)
      (h.setObject o fun object => { object with immutablePrototype := true })
  | linkPrototypeObject (h : Heap) (o : ℕ) (value : Value) :
    Step canonical h (.write o)
      (h.setObject o fun function => { function with prototypeObject := value })
  | sealNamespace (h : Heap) (o : ℕ) :
    Step canonical h (.write o) (h.setObject o PropertyStorage.sealNamespace)
  | markStringPrototype (h : Heap) (o : ℕ) :
    Step canonical h (.write o)
      { h.setObject o PropertyStorage.markStringPrototype with stringPrototype := some o }
  | declareGlobalFunction {property : OseoProperty} (h : Heap) (o : ℕ) (index : ℕ)
      (hproperty : (h.object o).properties[index]? = some property)
      (hcell : cellBackedProperty (h.object o) property.value = true) :
    Step canonical h (.write o) (PropertyStorage.declareGlobalFunction h o index property)
  | putGlobalLexicals (h : Heap) (o : ℕ) :
    Step canonical h (.write o)
      { h.setObject o fun object => { object with dictionary := true } with
        globalLexicals := some o }
  | bind (h : Heap) (cell : ℕ → OseoCell) (iteratorSymbol : Option Symbol)
      (stringPrototype : Option ℕ) (latestActivation : ℕ → Option Value) :
    Step canonical h .bind { h with cell, iteratorSymbol, stringPrototype, latestActivation }

/-- The heap before any object is created. -/
def Heap.empty : Heap where
  object _ := emptyObject .other .null
  nextObject := 0
  cell _ := ⟨none, true, none⟩
  nextShapeId := 1
  stringPrototype := none
  iteratorSymbol := none
  globalLexicals := none
  latestActivation _ := none

end Oseo.PropertyStorage
