import Oseo.Library.Programs
import Mathlib

/-!
# `Array.fromAsync`

The closure of `Array.fromAsync` in `runtime_array.c`, which is a state machine between its awaits,
with the steps of asynchronous iterators in `runtime_iterator.c`.

* what user code can see is an operation that is asked for, and user code is its answer;
* errors are values, one for each kind and message;
* host diagnostics are left out.
-/

namespace Oseo.FromAsync

open Oseo.Library

/-- The constructors of the errors that are thrown. -/
inductive ErrorKind
  | typeError
  | rangeError

/-- The greatest length, 2⁵³ - 1. -/
def maxLength : ℕ := 9007199254740991

/-- What the runtime reads of a value without asking user code. -/
class Values (V : Type) where
  undefined : V
  number : ℕ → V
  error : ErrorKind → String → V
  isUndefined : V → Bool
  isNullish : V → Bool
  isObject : V → Bool
  isCallable : V → Bool
  isConstructor : V → Bool
  toBoolean : V → Bool
  length : V → ℕ
  length_le : ∀ value, length value ≤ maxLength

export Values (undefined number isUndefined isNullish isObject isCallable isConstructor toBoolean)

/-- The property keys that are read. -/
inductive Key
  | asyncIterator
  | iterator
  | next
  | done
  | value
  | return
  | index (index : ℕ)

/-- What is asked for. -/
inductive Operation (V : Type)
  | get (object : V) (key : Key)
  | call (function this : V) (arguments : List V)
  | construct (constructor : V) (arguments : List V)
  | createArray (length : ℕ)
  | toObject (value : V)
  /-- Its answer is the length, as a Number. -/
  | lengthOfArrayLike (object : V)
  /-- CreateDataPropertyOrThrow. -/
  | define (object : V) (index : ℕ) (value : V)
  | setLength (object : V) (length : ℕ)
  /-- An object with a value and a done flag. -/
  | createIteratorResult (value : V) (done : Bool)
  /-- PromiseResolve with %Promise%. -/
  | promiseResolve (value : V)
  | createRejected (error : V)
  /-- The promise of the reactions of a wrapper to a promise: `fulfilled` of the flag, and
  `rejected` of the iterator if there is one. -/
  | promiseThen (promise : V) (done : Bool) (closing : Option V)
  /-- The reactions of an await: the answer is what the promise settles to. -/
  | settled (promise : V)
  | resolve (promise value : V)
  | reject (promise error : V)

/-- What is asked for, with what the answers come to. -/
abbrev Talk (V : Type) := Dialogue (Operation V) (Except V V)

/-- A program that may throw. -/
abbrev Steps (V : Type) := ExceptT V (Talk V)

variable {V : Type}

/-- An operation that may throw. -/
def perform (operation : Operation V) : Steps V V := .mk (.ask operation .done)

/-- The value of an answer. -/
def answered : Except V V → V
  | .ok value | .error value => value

/-- An operation that does not throw. -/
def make (operation : Operation V) : Steps V V :=
  .mk (.ask operation fun answer => .done (.ok (answered answer)))

/-- What steps come to, with nothing thrown. -/
def caught {α : Type} (program : Steps V α) : Steps V (Except V α) := ExceptT.lift program.run

variable [Values V]

def typeError (message : String) : V := Values.error .typeError message

/-- GetMethod: `from_async_get_method`. -/
def getMethod (value : V) (key : Key) (message : String) : Steps V (Option V) := do
  let method ← perform (.get value key)
  if isNullish method then return none
  if !isCallable method then throw (typeError message)
  return some method

/-! ## Steps of iterators -/

/-- An iterator, or the wrapper of a synchronous one. -/
structure Iterator (V : Type) where
  object : V
  fromSync : Bool

/-- `oseo_iterator_close` after an error, which it does not read. -/
def iteratorClose (iterator : V) : Steps V Unit := do
  if !isObject iterator then return
  match ← caught (perform (.get iterator .return)) with
  | .error _ => return
  | .ok method =>
    if isNullish method then return
    if !isCallable method then return
    let _ ← caught (perform (.call method iterator []))

/-- `async_from_sync_fields`: the value, and whether the iterator is done. -/
def asyncFromSyncFields (result : V) : Steps V (V × Bool) := do
  let done ← perform (.get result .done)
  let value ← perform (.get result .value)
  return (value, toBoolean done)

/-- `async_from_sync_promise`. -/
def asyncFromSyncPromise (iterator result : V) (closeOnRejection : Bool) : Steps V V := do
  match ← caught (asyncFromSyncFields result) with
  | .error error => make (.createRejected error)
  | .ok (value, done) =>
    match ← caught (perform (.promiseResolve value)) with
    | .error error =>
      if closeOnRejection && !done then iteratorClose iterator
      make (.createRejected error)
    | .ok promise =>
      make (.promiseThen promise done (if closeOnRejection && !done then some iterator else none))

/-- `oseo_internal_async_from_sync_fulfilled`. -/
def asyncFromSyncFulfilled (done : Bool) (value : V) : Steps V V :=
  make (.createIteratorResult value done)

/-- `oseo_internal_async_from_sync_rejected`. -/
def asyncFromSyncRejected (iterator reason : V) : Steps V V := do
  iteratorClose iterator
  throw reason

/-- `async_from_sync_start`, without arguments. -/
def asyncFromSyncStart (target method : V) (closeOnRejection : Bool) : Steps V V := do
  match ← caught (perform (.call method target [])) with
  | .error error => make (.createRejected error)
  | .ok result =>
    if !isObject result then
      make (.createRejected (typeError "The iterator result is not an object."))
    else asyncFromSyncPromise target result closeOnRejection

/-- `oseo_async_iterator_next_start`. -/
def asyncIteratorNextStart (iterator : Iterator V) (next : V) : Steps V V :=
  if iterator.fromSync then asyncFromSyncStart iterator.object next true
  else perform (.call next iterator.object [])

/-- `oseo_async_iterator_close_start` after an error: what needs an await, if anything does. -/
def asyncIteratorCloseStart (iterator : Iterator V) : Steps V (Option V) := do
  if !iterator.fromSync && !isObject iterator.object then return none
  let started : Steps V (Option V) := do
    let method ← perform (.get iterator.object .return)
    if isNullish method then
      if iterator.fromSync then
        let result ← make (.createIteratorResult undefined true)
        some <$> perform (.promiseResolve result)
      else pure none
    else if !isCallable method then
      throw (typeError "The iterator return method is not callable.")
    else if iterator.fromSync then
      match ← caught (perform (.call method iterator.object [])) with
      | .error error => some <$> make (.createRejected error)
      | .ok result =>
        if isObject result then some <$> asyncFromSyncPromise iterator.object result false
        else
          let error := typeError "The iterator return result is not an object."
          some <$> make (.createRejected error)
    else some <$> perform (.call method iterator.object [])
  match ← caught started with
  | .ok waiting => return waiting
  | .error error =>
    if iterator.fromSync then some <$> make (.createRejected error) else return none

/-! ## The state machine -/

/-- The await a suspended closure resumes from. -/
inductive FromAsyncPhase
  | awaitNext
  | awaitIteratorMapped
  | awaitElement
  | awaitElementMapped
  | awaitClose

/-- The closure step that runs next. -/
inductive FromAsyncAction
  | iteratorStep
  | iteratorResult
  | iteratorDefine
  | elementStep
  | elementValue
  | elementDefine
  | close
  | resolve
  | rejectPromise

/-- The record that the closure captures. -/
structure State (V : Type) where
  promise : V
  constructor : V
  mapper : V
  thisArg : V
  source : Iterator V
  next : V
  target : V
  index : ℕ
  length : ℕ
  phase : FromAsyncPhase
  error : V

/-- Whether there is a mapper. -/
def State.mapping (state : State V) : Bool := !isUndefined state.mapper

/-- What a round of the loop leads to. -/
inductive Round (V : Type)
  | next (action : FromAsyncAction) (value : V)
  | suspended (promise : V)
  | ended

/-- A part of the machine, which stores into the record. -/
abbrev Machine (V : Type) := StateT (State V) (Talk V)

/-- Steps that read the record only. -/
def steps {α : Type} (program : Steps V α) : ExceptT V (Machine V) α :=
  .mk fun state => (program.run : Talk V (Except V α)).andThen fun result => .done (result, state)

/-- `from_async_await`. -/
def fromAsyncAwait (value : V) (phase : FromAsyncPhase) : ExceptT V (Machine V) (Round V) := do
  modify fun state => { state with phase := phase }
  return .suspended (← steps (perform (.promiseResolve value)))

/-- A part of a round, with the action its throws lead to. -/
def routed (onThrow : FromAsyncAction) (program : ExceptT V (Machine V) (Round V)) :
    Machine V (Round V) := do
  match ← program.run with
  | .ok round => return round
  | .error error => return .next onThrow error

/-- One round of the loop of `from_async_run`. -/
def fromAsyncRound (action : FromAsyncAction) (value : V) : Machine V (Round V) := do
  let state ← get
  match action with
  | .iteratorStep =>
    if maxLength ≤ state.index then
      routed .close (throw (typeError "Array.fromAsync has too many values."))
    else routed .rejectPromise do
      let result ← steps (asyncIteratorNextStart state.source state.next)
      fromAsyncAwait result .awaitNext
  | .iteratorResult => routed .rejectPromise do
    if !isObject value then throw (typeError "The async iterator result is not an object.")
    let done ← steps (perform (.get value .done))
    if toBoolean done then
      let _ ← steps (perform (.setLength state.target state.index))
      return .next .resolve value
    let element ← steps (perform (.get value .value))
    if !state.mapping then return .next .iteratorDefine element
    routed .close do
      let mapped ← steps (perform
        (.call state.mapper state.thisArg [element, number state.index]))
      fromAsyncAwait mapped .awaitIteratorMapped
  | .iteratorDefine => routed .close do
    let _ ← steps (perform (.define state.target state.index value))
    modify fun state => { state with index := state.index + 1 }
    return .next .iteratorStep value
  | .elementDefine => routed .rejectPromise do
    let _ ← steps (perform (.define state.target state.index value))
    modify fun state => { state with index := state.index + 1 }
    return .next .elementStep value
  | .elementStep => routed .rejectPromise do
    if state.length ≤ state.index then
      let _ ← steps (perform (.setLength state.target state.index))
      return .next .resolve value
    let element ← steps (perform (.get state.source.object (.index state.index)))
    fromAsyncAwait element .awaitElement
  | .elementValue =>
    if !state.mapping then return .next .elementDefine value
    routed .rejectPromise do
      let mapped ← steps (perform
        (.call state.mapper state.thisArg [value, number state.index]))
      fromAsyncAwait mapped .awaitElementMapped
  | .close => do
    set { state with error := value }
    let closing : ExceptT V (Machine V) (Round V) := do
      match ← steps (asyncIteratorCloseStart state.source) with
      | some waiting => fromAsyncAwait waiting .awaitClose
      | none => return .next .rejectPromise value
    match ← closing.run with
    | .ok round => return round
    | .error _ => return .next .rejectPromise value
  | .resolve => do
    let _ ← (steps (make (.resolve state.promise state.target))).run
    return .ended
  | .rejectPromise => do
    let _ ← (steps (make (.reject state.promise value))).run
    return .ended

/-- `array_from_async_settled`: the action that consumes what a promise settled to. -/
def FromAsyncPhase.settled (phase : FromAsyncPhase) (rejected : Bool) : FromAsyncAction :=
  match phase with
  | .awaitNext => if rejected then .rejectPromise else .iteratorResult
  | .awaitIteratorMapped => if rejected then .close else .iteratorDefine
  | .awaitElement => if rejected then .rejectPromise else .elementValue
  | .awaitElementMapped => if rejected then .rejectPromise else .elementDefine
  | .awaitClose => .rejectPromise

/-- The value of that action. -/
def State.settledValue (state : State V) (value : V) : V :=
  match state.phase with
  | .awaitClose => state.error
  | _ => value

/-- The loop of `from_async_run`, resumed by `array_from_async_settled` whenever the promise it waits
for settles. Nothing is the value of a run that has not ended within `fuel` rounds. -/
def fromAsyncRun : (fuel : ℕ) → State V → FromAsyncAction → V → Talk V (Option Unit)
  | 0, _, _, _ => .done none
  | fuel + 1, state, action, value =>
    (fromAsyncRound action value state).andThen fun
      | (.next action value, state) => fromAsyncRun fuel state action value
      | (.ended, _) => .done (some ())
      | (.suspended promise, state) => .ask (.settled promise) fun
        | .ok value =>
          fromAsyncRun fuel state (state.phase.settled false) (state.settledValue value)
        | .error value =>
          fromAsyncRun fuel state (state.phase.settled true) (state.settledValue value)

/-- The greatest length of an array. -/
def maxArrayLength : ℕ := 4294967295

/-- `from_async_open` of an iterator, which is wrapped if it is synchronous. -/
def fromAsyncOpenIterator (items method : V) (sync : Bool) :
    ExceptT V (Machine V) FromAsyncAction := do
  let iterator ← steps (perform (.call method items []))
  if !isObject iterator then throw (typeError "The iterator is not an object.")
  let next ← steps (perform (.get iterator .next))
  modify fun state => { state with source := ⟨iterator, sync⟩, next := next }
  let constructor := (← get).constructor
  let target ← if isConstructor constructor then steps (perform (.construct constructor []))
    else steps (perform (.createArray 0))
  modify fun state => { state with target := target }
  return .iteratorStep

/-- `from_async_open` of an object like an array. -/
def fromAsyncOpenArrayLike (items : V) : ExceptT V (Machine V) FromAsyncAction := do
  let object ← steps (perform (.toObject items))
  let length := Values.length (← steps (perform (.lengthOfArrayLike object)))
  modify fun state => { state with source := ⟨object, false⟩, length := length }
  let constructor := (← get).constructor
  let target ← if isConstructor constructor then
      steps (perform (.construct constructor [number length]))
    else if maxArrayLength < length then
      throw (Values.error .rangeError "Invalid array length.")
    else steps (perform (.createArray length))
  modify fun state => { state with target := target }
  return .elementStep

/-- `from_async_open`: the first action. -/
def fromAsyncOpen (items : V) : ExceptT V (Machine V) FromAsyncAction := do
  let state ← get
  if state.mapping && !isCallable state.mapper then
    throw (typeError "Array.fromAsync mapfn is not callable.")
  match ← steps (getMethod items .asyncIterator
    "The Symbol.asyncIterator method is not callable.") with
  | some method => fromAsyncOpenIterator items method false
  | none =>
    match ← steps (getMethod items .iterator "The Symbol.iterator method is not callable.") with
    | some method => fromAsyncOpenIterator items method true
    | none => fromAsyncOpenArrayLike items

/-- The record before the closure starts. -/
def initial (promise receiver mapper thisArg : V) : State V where
  promise := promise
  constructor := receiver
  mapper := mapper
  thisArg := thisArg
  source := ⟨undefined, false⟩
  next := undefined
  target := undefined
  index := 0
  length := 0
  phase := .awaitNext
  error := undefined

/-- What follows the steps before the first await. -/
def started (fuel : ℕ) : Except V FromAsyncAction × State V → Talk V (Option Unit)
  | (.ok action, state) => fromAsyncRun fuel state action undefined
  | (.error error, state) => fromAsyncRun fuel state .rejectPromise error

/-- `array_from_async`, whose promise is returned once the machine waits or has ended. -/
def arrayFromAsync (fuel : ℕ) (promise receiver items mapper thisArg : V) : Talk V (Option Unit) :=
  (fromAsyncOpen items (initial promise receiver mapper thisArg)).andThen (started fuel)

/-! ## The specification -/

/-- Await. -/
def specAwait (value : V) : Steps V V := do
  perform (.settled (← perform (.promiseResolve value)))

/-- IteratorClose with a throw completion, before it is thrown. -/
def specIteratorClose (iterator : V) : Steps V Unit := do
  let _ ← caught do
    match ← getMethod iterator .return "The iterator return method is not callable." with
    | none => return
    | some method =>
      let _ ← perform (.call method iterator [])

/-- AsyncFromSyncIteratorContinuation, the promise of which is rejected by the caller. -/
def specContinuation (iterator result : V) (close : Bool) : Steps V V := do
  let done := toBoolean (← perform (.get result .done))
  let value ← perform (.get result .value)
  let promise ← tryCatch (perform (.promiseResolve value)) fun error => do
    if !done && close then specIteratorClose iterator
    throw error
  make (.promiseThen promise done (if done || !close then none else some iterator))

/-- IfAbruptRejectPromise. -/
def rejectAbrupt (program : Steps V V) : Steps V V :=
  tryCatch program fun error => make (.createRejected error)

/-- An iterator record of the specification. -/
inductive IteratorRecord (V : Type)
  | user (iterator nextMethod : V)
  | fromSync (iterator nextMethod : V)

/-- The call of a record's next method. -/
def IteratorRecord.next : IteratorRecord V → Steps V V
  | .user iterator nextMethod => perform (.call nextMethod iterator [])
  | .fromSync iterator nextMethod => rejectAbrupt do
    let result ← perform (.call nextMethod iterator [])
    if !isObject result then throw (typeError "The iterator result is not an object.")
    specContinuation iterator result true

/-- The call of a record's return method, if it has one. -/
def IteratorRecord.return : IteratorRecord V → Steps V (Option V)
  | .user iterator _ => do
    match ← getMethod iterator .return "The iterator return method is not callable." with
    | none => return none
    | some method => some <$> perform (.call method iterator [])
  | .fromSync iterator _ => some <$> rejectAbrupt do
    match ← getMethod iterator .return "The iterator return method is not callable." with
    | none =>
      -- The new promise that is resolved with a new object.
      let result ← make (.createIteratorResult undefined true)
      perform (.promiseResolve result)
    | some method =>
      let result ← perform (.call method iterator [])
      if !isObject result then
        throw (typeError "The iterator return result is not an object.")
      specContinuation iterator result false

/-- AsyncIteratorClose with a throw completion. -/
def specAsyncIteratorClose (record : IteratorRecord V) (error : V) : Steps V V := do
  let _ ← caught do
    match ← record.return with
    | none => return
    | some value =>
      let _ ← specAwait value
  throw error

/-- IfAbruptCloseAsyncIterator. -/
def closeAbrupt (record : IteratorRecord V) (program : Steps V V) : Steps V V :=
  tryCatch program (specAsyncIteratorClose record)

section
variable (mapper thisArg target : V)

/-- The elements of an iterator, from the one of index `k` on. -/
def specIterate (record : IteratorRecord V) (k : ℕ) : Steps V V :=
  if _h : maxLength ≤ k then
    specAsyncIteratorClose record (typeError "Array.fromAsync has too many values.")
  else do
    let result ← specAwait (← record.next)
    if !isObject result then throw (typeError "The async iterator result is not an object.")
    if toBoolean (← perform (.get result .done)) then
      let _ ← perform (.setLength target k)
      return target
    let value ← perform (.get result .value)
    let mapped ← if isUndefined mapper then pure value else
      closeAbrupt record do
        specAwait (← perform (.call mapper thisArg [value, number k]))
    let _ ← closeAbrupt record (perform (.define target k mapped))
    specIterate record (k + 1)
termination_by maxLength - k

/-- The elements of an object like an array, from the one of index `k` on. -/
def specElements (object : V) (length k : ℕ) : Steps V V :=
  if _h : k < length then do
    let value ← specAwait (← perform (.get object (.index k)))
    let mapped ← if isUndefined mapper then pure value else do
      specAwait (← perform (.call mapper thisArg [value, number k]))
    let _ ← perform (.define target k mapped)
    specElements object length (k + 1)
  else do
    let _ ← perform (.setLength target length)
    return target
termination_by length - k

end

/-- The elements of the iterator that a method makes. -/
def specFromIterator (record : V → V → IteratorRecord V)
    (constructor items mapper thisArg method : V) : Steps V V := do
  let iterator ← perform (.call method items [])
  if !isObject iterator then throw (typeError "The iterator is not an object.")
  let nextMethod ← perform (.get iterator .next)
  let target ← if isConstructor constructor then perform (.construct constructor [])
    else perform (.createArray 0)
  specIterate mapper thisArg target (record iterator nextMethod) 0

/-- The elements of an object like an array. -/
def specFromArrayLike (constructor items mapper thisArg : V) : Steps V V := do
  let object ← perform (.toObject items)
  let length := Values.length (← perform (.lengthOfArrayLike object))
  let target ← if isConstructor constructor then
      perform (.construct constructor [number length])
    else if maxArrayLength < length then
      throw (Values.error .rangeError "Invalid array length.")
    else perform (.createArray length)
  specElements mapper thisArg target object length 0

/-- The closure of `Array.fromAsync`. -/
def specFromAsync (constructor items mapper thisArg : V) : Steps V V := do
  if !isUndefined mapper && !isCallable mapper then
    throw (typeError "Array.fromAsync mapfn is not callable.")
  match ← getMethod items .asyncIterator "The Symbol.asyncIterator method is not callable." with
  | some method => specFromIterator .user constructor items mapper thisArg method
  | none =>
    match ← getMethod items .iterator "The Symbol.iterator method is not callable." with
    | some method => specFromIterator .fromSync constructor items mapper thisArg method
    | none => specFromArrayLike constructor items mapper thisArg

/-- The end of an async function: its promise is settled with what the closure comes to. -/
def settle (promise : V) : Except V V → Talk V (Option Unit)
  | .ok value => .ask (.resolve promise value) fun _ => .done (some ())
  | .error error => .ask (.reject promise error) fun _ => .done (some ())

/-- `Array.fromAsync`. -/
def specArrayFromAsync (promise constructor items mapper thisArg : V) : Talk V (Option Unit) :=
  (specFromAsync constructor items mapper thisArg).run.andThen (settle promise)

/-! ## The closure of `Array.fromAsync` is that of the specification

The steps of iterators are those of ECMA-262, so each run of the state machine from an action on is
what the closure does from there (`run_iterate`, `run_elements`). The elements are defined in order,
each once, and then the promise is settled, once (`specArrayFromAsync_follows`).
-/

open Oseo.Library.Dialogue

variable {state : State V} {iterator result nextMethod : V}

attribute [local simp] andThen bind pure ExceptT.run ExceptT.mk ExceptT.pure ExceptT.bind
  ExceptT.bindCont ExceptT.lift Functor.map ExceptT.map throw throwThe MonadExceptOf.throw tryCatch
  tryCatchThe MonadExceptOf.tryCatch ExceptT.tryCatch caught perform make getMethod andThen_assoc
  next_eq_iff

/-! ## Steps of iterators -/

lemma iteratorClose_eq (h : isObject iterator = true) :
    iteratorClose iterator = specIteratorClose iterator := by
  unfold iteratorClose specIteratorClose
  apply ExceptT.ext
  simp [h]
  intro method
  cases hnullish : isNullish method <;> cases hcallable : isCallable method <;> simp

/-- Nothing is thrown by the close. -/
lemma specIteratorClose_normal (iterator : V) : ∃ program : Talk V (Except V Unit),
    specIteratorClose iterator = program.andThen fun _ => done (.ok ()) :=
  ⟨_, by
    unfold specIteratorClose
    exact andThen_assoc _ _ _⟩

lemma asyncFromSyncPromise_eq (h : isObject iterator = true) (close : Bool) :
    asyncFromSyncPromise iterator result close =
      rejectAbrupt (specContinuation iterator result close) := by
  obtain ⟨program, hclose⟩ := specIteratorClose_normal iterator
  unfold asyncFromSyncPromise asyncFromSyncFields specContinuation rejectAbrupt
  rw [iteratorClose_eq h, hclose]
  apply ExceptT.ext
  simp
  intro done value
  cases toBoolean done <;> cases close <;> simp

/-- The record of the specification. -/
def Iterator.record (iterator : Iterator V) (nextMethod : V) : IteratorRecord V :=
  if iterator.fromSync then .fromSync iterator.object nextMethod
  else .user iterator.object nextMethod

lemma next_eq (h : isObject iterator = true) (fromSync : Bool) :
    asyncIteratorNextStart ⟨iterator, fromSync⟩ nextMethod =
      (Iterator.record ⟨iterator, fromSync⟩ nextMethod).next := by
  cases fromSync with
  | false => rfl
  | true =>
    show asyncFromSyncStart iterator nextMethod true = rejectAbrupt _
    apply ExceptT.ext
    simp [asyncFromSyncStart, asyncFromSyncPromise_eq h, rejectAbrupt]
    intro result
    cases isObject result <;> simp

lemma closeStart_eq (h : isObject iterator = true) (fromSync : Bool) :
    asyncIteratorCloseStart ⟨iterator, fromSync⟩ = (do
      match ← caught (Iterator.record ⟨iterator, fromSync⟩ nextMethod).return with
      | .ok waiting => return waiting
      | .error _ => return none) := by
  unfold asyncIteratorCloseStart Iterator.record
  apply ExceptT.ext
  cases fromSync with
  | false =>
    simp [h, IteratorRecord.return]
    intro method
    cases isNullish method <;> cases isCallable method <;> simp
  | true =>
    have hpromise := fun result => @asyncFromSyncPromise_eq V _ iterator result h false
    simp [h, IteratorRecord.return, hpromise, rejectAbrupt]
    intro method
    cases isNullish method with
    | true => simp
    | false =>
      cases isCallable method with
      | false => simp
      | true =>
        refine ask_congr fun answer => ?_
        cases answer with
        | error error => rfl
        | ok result =>
          cases hresult : isObject result with
          | false => simp [hresult]
          | true =>
            simp [hresult]
            congr 1
            simp

/-! ## The machine -/

attribute [local simp] get getThe MonadStateOf.get set MonadStateOf.set modify modifyGet
  MonadStateOf.modifyGet liftM monadLift MonadLift.monadLift StateT.get StateT.set StateT.modifyGet
  StateT.bind StateT.pure StateT.lift StateT.map steps fromAsyncAwait routed settle
  FromAsyncPhase.settled State.settledValue

/-- The iterator of the closure. -/
def State.record (state : State V) : IteratorRecord V := state.source.record state.next

lemma run_reject (fuel : ℕ) (error : V) :
    fromAsyncRun (fuel + 1) state .rejectPromise error = settle state.promise (.error error) := rfl

lemma run_resolve (fuel : ℕ) (value : V) :
    fromAsyncRun (fuel + 1) state .resolve value = settle state.promise (.ok state.target) := rfl

lemma run_close (h : isObject state.source.object = true) (fuel : ℕ) (error : V) :
    fromAsyncRun (fuel + 2) state .close error =
      (specAsyncIteratorClose state.record error).run.andThen (settle state.promise) := by
  have hstart := @closeStart_eq V _ state.source.object state.next h state.source.fromSync
  rw [fromAsyncRun, fromAsyncRound, specAsyncIteratorClose]
  unfold State.record
  simp [hstart]
  congr 1
  funext outcome
  rcases outcome with error' | _ | waiting
  · simp [run_reject]
  · simp [run_reject]
  · simp [run_reject, specAwait]

/-- The rest of a run, from an await's outcome or the one of a definition. -/
def afterwards (promise : V) (rest : V → Talk V (Option Unit)) : Except V V → Talk V (Option Unit)
  | .ok value => rest value
  | .error error => settle promise (.error error)

lemma run_iteratorDefine {fuel : ℕ} {rest : Talk V (Option Unit)} {value : V}
    (h : isObject state.source.object = true)
    (hrest : ∀ value, fromAsyncRun (fuel + 2) { state with index := state.index + 1 } .iteratorStep
      value = rest) :
    fromAsyncRun (fuel + 3) state .iteratorDefine value =
      (closeAbrupt state.record (perform (.define state.target state.index value))).run.andThen
        (afterwards state.promise fun _ => rest) := by
  rw [fromAsyncRun, fromAsyncRound]
  simp [run_close h, hrest, closeAbrupt, specAsyncIteratorClose, afterwards, State.record]

/-- The elements of an iterator, from the next one on. -/
lemma run_iterate (value : V) {fuel : ℕ} (h : isObject state.source.object = true)
    (hfuel : 3 * (maxLength - state.index) + 3 ≤ fuel) :
    fromAsyncRun fuel state .iteratorStep value =
      (specIterate state.mapper state.thisArg state.target state.record state.index).run.andThen
        (settle state.promise) := by
  induction hleft : maxLength - state.index generalizing state value fuel with
  | zero =>
    obtain ⟨fuel, rfl⟩ := Nat.exists_eq_add_of_le' (Nat.le_of_add_left_le hfuel)
    rw [fromAsyncRun, fromAsyncRound, specIterate]
    simp [Nat.sub_eq_zero_iff_le.mp hleft, run_close h]
  | succ left ih =>
    have hmax : ¬maxLength ≤ state.index := by omega
    obtain ⟨fuel, rfl⟩ := Nat.exists_eq_add_of_le' (show 5 ≤ fuel by omega)
    have hnext := @next_eq V _ state.source.object state.next h state.source.fromSync
    have hrest : ∀ phase value, fromAsyncRun (fuel + 2)
        { state with phase, index := state.index + 1 } .iteratorStep value =
        (specIterate state.mapper state.thisArg state.target state.record
          (state.index + 1)).run.andThen (settle state.promise) := by
      intro phase value
      exact @ih { state with phase, index := state.index + 1 } value (fuel + 2) h
        (by show 3 * (maxLength - (state.index + 1)) + 3 ≤ _; omega)
        (by show maxLength - (state.index + 1) = _; omega)
    have hdefine := fun phase value =>
      @run_iteratorDefine V _ { state with phase } fuel _ value h (hrest phase)
    rw [fromAsyncRun, fromAsyncRound, specIterate]
    simp [hmax, hnext, specAwait, State.record]
    congr 1
    funext outcome
    cases outcome with
    | error error => simp [run_reject]
    | ok promise =>
      simp [run_reject]
      intro _ result
      rw [fromAsyncRun, fromAsyncRound]
      cases isObject result with
      | false => simp [run_reject]
      | true =>
        simp [run_reject]
        intro done
        cases toBoolean done with
        | true => simp [run_reject, run_resolve]
        | false =>
          simp [run_reject, State.mapping]
          intro value
          have hclose : ∀ phase error, fromAsyncRun (fuel + 3) { state with phase } .close error =
              (specAsyncIteratorClose state.record error).run.andThen (settle state.promise) :=
            fun phase error => @run_close V _ { state with phase } h (fuel + 1) error
          cases isUndefined state.mapper with
          | true =>
            simp [hdefine, State.record, closeAbrupt, specAsyncIteratorClose, afterwards]
          | false =>
            simp [hdefine, hclose, State.record, closeAbrupt, specAsyncIteratorClose, afterwards]

/-- The elements of an object like an array, from the next one on. -/
lemma run_elements (value : V) {fuel : ℕ} (hindex : state.index ≤ state.length)
    (hfuel : 3 * (state.length - state.index) + 2 ≤ fuel) :
    fromAsyncRun fuel state .elementStep value =
      (specElements state.mapper state.thisArg state.target state.source.object state.length
        state.index).run.andThen (settle state.promise) := by
  induction hleft : state.length - state.index generalizing state value fuel with
  | zero =>
    obtain ⟨fuel, rfl⟩ := Nat.exists_eq_add_of_le' (Nat.le_of_add_left_le hfuel)
    have hlength : state.index = state.length := by omega
    rw [fromAsyncRun, fromAsyncRound, specElements]
    simp [hlength, run_reject, run_resolve]
  | succ left ih =>
    have hlength : state.index < state.length := by omega
    obtain ⟨fuel, rfl⟩ := Nat.exists_eq_add_of_le' (show 4 ≤ fuel by omega)
    have hdefine : ∀ phase value,
        fromAsyncRun (fuel + 2) { state with phase } .elementDefine value =
        (perform (.define state.target state.index value)).run.andThen
          (afterwards state.promise fun _ => (specElements state.mapper state.thisArg state.target
            state.source.object state.length (state.index + 1)).run.andThen
              (settle state.promise)) := by
      intro phase value
      have hrest := @ih { state with phase, index := state.index + 1 } value (fuel + 1) hlength
        (by show 3 * (state.length - (state.index + 1)) + 2 ≤ _; omega)
        (by show state.length - (state.index + 1) = _; omega)
      rw [fromAsyncRun, fromAsyncRound]
      simp [hrest, run_reject, afterwards]
    rw [fromAsyncRun, fromAsyncRound, specElements]
    simp [hlength, Nat.not_le.mpr hlength, run_reject, specAwait]
    intro element promise value
    rw [fromAsyncRun, fromAsyncRound]
    cases hmapper : isUndefined state.mapper <;>
      simp [State.mapping, hmapper, hdefine, run_reject, afterwards]

/-- The greatest number of rounds. -/
def maxRounds : ℕ := 3 * maxLength + 3

section
variable {promise receiver items mapper thisArg method : V} {fuel : ℕ}

lemma openIterator_eq (hfuel : maxRounds ≤ fuel) (record : V → V → IteratorRecord V) (sync : Bool)
    (hrecord : ∀ iterator nextMethod,
      Iterator.record ⟨iterator, sync⟩ nextMethod = record iterator nextMethod) :
    (fromAsyncOpenIterator items method sync (initial promise receiver mapper thisArg)).andThen
        (started fuel) =
      (specFromIterator record receiver items mapper thisArg method).run.andThen
        (settle promise) := by
  obtain ⟨fuel, rfl⟩ := Nat.exists_eq_add_of_le' (Nat.le_of_add_left_le hfuel)
  unfold fromAsyncOpenIterator specFromIterator
  simp [started, initial, run_reject]
  intro iterator
  cases hobject : isObject iterator with
  | false => simp [started, run_reject]
  | true =>
    have hiterate : ∀ next target, fromAsyncRun (fuel + 3)
        { initial promise receiver mapper thisArg with source := ⟨iterator, sync⟩, next, target }
          .iteratorStep undefined =
        (specIterate mapper thisArg target (record iterator next) 0).run.andThen
          (settle promise) := by
      intro next target
      rw [← hrecord]
      exact run_iterate undefined hobject hfuel
    simp only [initial] at hiterate
    cases hconstructor : isConstructor receiver <;>
      simp [hconstructor, hiterate, started, run_reject]

lemma openArrayLike_eq (hfuel : maxRounds ≤ fuel) :
    (fromAsyncOpenArrayLike items (initial promise receiver mapper thisArg)).andThen
        (started fuel) =
      (specFromArrayLike receiver items mapper thisArg).run.andThen (settle promise) := by
  obtain ⟨fuel, rfl⟩ := Nat.exists_eq_add_of_le' (Nat.le_of_add_left_le hfuel)
  unfold fromAsyncOpenArrayLike specFromArrayLike
  simp [started, initial, run_reject]
  intro object value
  have helements : ∀ target, fromAsyncRun (fuel + 3)
      { initial promise receiver mapper thisArg with
        source := ⟨object, false⟩, length := Values.length value, target } .elementStep undefined =
      (specElements mapper thisArg target object (Values.length value) 0).run.andThen
        (settle promise) := by
    intro target
    apply run_elements undefined (Nat.zero_le _)
    have hlength := Values.length_le value
    unfold maxRounds at hfuel
    show 3 * (Values.length value - 0) + 2 ≤ fuel + 3
    omega
  simp only [initial] at helements
  cases isConstructor receiver with
  | true => simp [helements, started, run_reject]
  | false =>
    by_cases hlength : maxArrayLength < Values.length value <;>
      simp [hlength, helements, started, run_reject]

end

lemma arrayFromAsync_eq (promise receiver items mapper thisArg : V) {fuel : ℕ}
    (hfuel : maxRounds ≤ fuel) :
    arrayFromAsync fuel promise receiver items mapper thisArg =
      specArrayFromAsync promise receiver items mapper thisArg := by
  have hmapping : (initial promise receiver mapper thisArg).mapping = !isUndefined mapper := rfl
  have hmapper : (initial promise receiver mapper thisArg).mapper = mapper := rfl
  have hrejected : ∀ error, started fuel (.error error, initial promise receiver mapper thisArg) =
      settle promise (.error error) := by
    obtain ⟨rest, rfl⟩ := Nat.exists_eq_add_of_le' (Nat.le_of_add_left_le hfuel)
    exact fun error => rfl
  unfold arrayFromAsync specArrayFromAsync fromAsyncOpen specFromAsync
  by_cases hcallable : isUndefined mapper = false ∧ isCallable mapper = false
  · simp [hmapping, hmapper, hcallable, hrejected]
  · simp [-getMethod, hmapping, hmapper, hcallable]
    congr 1
    funext outcome
    rcases outcome with error | _ | method
    · simp [hrejected]
    · simp [-getMethod]
      congr 1
      funext outcome
      rcases outcome with error | _ | method
      · simp [hrejected]
      · simpa using openArrayLike_eq hfuel
      · simpa using openIterator_eq hfuel .fromSync true fun _ _ => rfl
    · simpa using openIterator_eq hfuel .user false fun _ _ => rfl

/-! ## Progress -/

/-- The number of elements that are defined, and nothing once the promise is settled: each operation
leads from one to the next. -/
def progress (promise : V) : Option ℕ → Operation V → Option ℕ → Prop
  | some k, .define _ index _, state => index = k ∧ state = some (k + 1)
  | some _, .resolve settled _, state => settled = promise ∧ state = none
  | some _, .reject settled _, state => settled = promise ∧ state = none
  | some k, _, state => state = some k
  | none, _, _ => False

variable {promise : V} {k : ℕ} {α : Type} {ends : Except V α → Option ℕ → Prop}

attribute [local simp] Follows follows_andThen progress

omit [Values V] in
lemma forall_outcome {p : Except V α → Prop} :
    (∀ outcome, p outcome) ↔ (∀ value, p (.ok value)) ∧ ∀ error, p (.error error) := by
  constructor
  · exact fun h => ⟨fun value => h _, fun error => h _⟩
  · rintro ⟨hok, herror⟩ (_ | _)
    · exact herror _
    · exact hok _

omit [Values V] in
lemma follows_ite {condition : Prop} [Decidable condition] {program program' : Steps V α} :
    Follows (progress promise) ends (ite condition program program' : Steps V α) (some k) ↔
      (condition → program.run.Follows (progress promise) ends (some k)) ∧
        (¬condition → program'.run.Follows (progress promise) ends (some k)) := by
  split <;> simp [*]

attribute [local simp] forall_outcome follows_ite

/-- Nothing is defined, and no promise is settled. -/
def Quiet (promise : V) (program : Steps V α) : Prop :=
  ∀ {k : ℕ} {ends : Except V α → Option ℕ → Prop}, (∀ outcome, ends outcome (some k)) →
    program.run.Follows (progress promise) ends (some k)

omit [Values V] in
lemma specAwait_quiet (value : V) : Quiet promise (specAwait value) := by
  intro k ends h
  simp [specAwait, h]

lemma specIteratorClose_quiet (iterator : V) : Quiet promise (specIteratorClose iterator) := by
  intro k ends h
  simp [specIteratorClose, h]

lemma specContinuation_quiet (iterator result : V) (close : Bool) :
    Quiet promise (specContinuation iterator result close) := by
  intro k ends h
  simp [specContinuation, h]
  intros
  apply specIteratorClose_quiet
  simp [h]

lemma next_quiet (record : IteratorRecord V) : Quiet promise record.next := by
  intro k ends h
  cases record <;> simp [IteratorRecord.next, rejectAbrupt, h]
  intros
  apply specContinuation_quiet
  simp [h]

lemma return_quiet (record : IteratorRecord V) : Quiet promise record.return := by
  intro k ends h
  cases record <;> simp [IteratorRecord.return, rejectAbrupt, h]
  intros
  apply specContinuation_quiet
  simp [h]

/-- The error that started a close is the one that is thrown. -/
lemma specAsyncIteratorClose_throws (record : IteratorRecord V) {error : V}
    {ends : Except V V → Option ℕ → Prop} (h : ends (.error error) (some k)) :
    Follows (progress promise) ends (specAsyncIteratorClose record error) (some k) := by
  simp [specAsyncIteratorClose]
  apply return_quiet
  rintro (_ | _ | _) <;> simp [h]
  apply specAwait_quiet
  simp [h]

section
variable (mapper thisArg target : V) {ends : Except V V → Option ℕ → Prop}
  (h : ∀ outcome k, ends outcome (some k))
include h

lemma specIterate_counts (record : IteratorRecord V) :
    Follows (progress promise) ends (specIterate mapper thisArg target record k) (some k) := by
  induction hleft : maxLength - k generalizing k with
  | zero =>
    rw [specIterate]
    simp [Nat.sub_eq_zero_iff_le.mp hleft, specAsyncIteratorClose_throws, h]
  | succ left ih =>
    have hrest := @ih (k + 1) (by omega)
    rw [specIterate]
    simp [show ¬maxLength ≤ k by omega]
    apply next_quiet
    simp [specAwait, closeAbrupt, h, hrest]
    intros
    refine ⟨fun _ _ => ?_, fun _ => ⟨fun _ => ⟨fun _ => ⟨fun _ _ => ?_, fun _ => ?_⟩, fun _ => ?_⟩,
      fun _ => ?_⟩⟩
    all_goals exact specAsyncIteratorClose_throws record (h _ _)

lemma specElements_counts (object : V) (length : ℕ) :
    Follows (progress promise) ends (specElements mapper thisArg target object length k)
      (some k) := by
  induction hleft : length - k generalizing k with
  | zero =>
    rw [specElements]
    simp [Nat.not_lt.mpr (Nat.sub_eq_zero_iff_le.mp hleft), h]
  | succ left ih =>
    have hrest := @ih (k + 1) (by omega)
    rw [specElements]
    simp [show k < length by omega, specAwait, h, hrest]

end

/-- The elements are defined in order, each once, and then the promise is settled, once. -/
lemma specArrayFromAsync_follows (promise receiver items mapper thisArg : V) :
    (specArrayFromAsync promise receiver items mapper thisArg).Follows (progress promise)
      (fun _ state => state = none) (some 0) := by
  have hsettle : ∀ outcome k, (settle promise outcome).Follows (progress promise)
      (fun _ state => state = none) (some k) := by
    simp
  simp [-settle, hsettle, specArrayFromAsync, specFromAsync, specFromIterator, specFromArrayLike,
    specIterate_counts, specElements_counts]

end Oseo.FromAsync
