import Oseo.Library.Runs
import Mathlib.Data.Fintype.BigOperators
import Mathlib.Algebra.GroupWithZero.Nat

/-!
# The evaluation driver

The table the build emits for `runtime_module.c`, and Evaluate and InnerModuleEvaluation as that
file runs them: the depth-first walk keeps its activations on an explicit frame stack, so a frame
resumes in the middle of its request loop once the module it entered is finished.

* `ModuleGraph` is the part the build fixes (requests in source order, top-level await);
* `ModuleRecord` is the part evaluation changes;
* `ModuleState` is the table during a run, with the evaluator calls made so far and the
  reactions attached to suspended bodies.

An evaluator is user code, so its result is read from a `script` indexed by the number of
calls made before it. Allocation is taken to succeed. The frame loop is given `fuel` iterations;
`DriverTheorems` shows how many always suffice.
-/

namespace Oseo.ModuleEvaluation

/-! ## Records -/

/-- The Cyclic Module Record `[[Status]]` values after linking. -/
inductive ModuleStatus
  | linked
  | evaluating
  | evaluatingAsync
  | evaluated
deriving DecidableEq, Repr

/-- One more than `SIZE_MAX`, and than `UINT64_MAX`. -/
def sizeLimit : ℕ := 2 ^ 64

/-- An empty DFS index (`OSEO_MODULE_NONE`). -/
def moduleNone : ℕ := sizeLimit - 1

/-- The unset value of `[[AsyncEvaluationOrder]]`. -/
def asyncUnset : ℕ := 0

/-- The done value of `[[AsyncEvaluationOrder]]`. -/
def asyncDone : ℕ := sizeLimit - 1

/-- How a native operation ended: `failure` is a throw that carries a host diagnostic,
which ends the program instead of reaching a handler. -/
inductive Result (V : Type)
  | normal
  | throw (error : V)
  | failure
deriving DecidableEq, Repr

/-- A record's `[[TopLevelCapability]]`: undefined, or the state of its promise. -/
inductive Capability (V : Type)
  | undefined
  | pending
  | fulfilled
  | rejected (error : V)
deriving DecidableEq, Repr

/-- `is_promise` on a capability. -/
def Capability.isPromise {V : Type} : Capability V → Bool
  | .undefined => false
  | _ => true

/-- The build's part of the table. The two bounds are those of the `size_t` fields that
hold the counts. -/
structure ModuleGraph (n : ℕ) where
  requested : Fin n → List (Fin n)
  hasTopLevelAwait : Fin n → Bool
  count_lt : n < asyncDone
  requested_lt : ∀ i, (requested i).length < sizeLimit

/-- The evaluation state of one module. -/
structure ModuleRecord (n : ℕ) (V : Type) where
  topLevelCapability : Capability V
  evaluationError : V
  errored : Bool
  /-- Set only while GatherAvailableAncestors lists this module. -/
  gathered : Bool
  status : ModuleStatus
  dfsIndex : ℕ
  dfsAncestorIndex : ℕ
  cycleRoot : Option (Fin n)
  asyncEvaluationOrder : ℕ
  pendingAsyncDependencies : ℕ
  asyncParents : List (Fin n)
deriving DecidableEq

/-- The record `oseo_module_graph_evaluate` installs. The default value of `V` is
`undefined`. -/
def ModuleRecord.initial (n : ℕ) (V : Type) [Inhabited V] : ModuleRecord n V where
  topLevelCapability := .undefined
  evaluationError := default
  errored := false
  gathered := false
  status := .linked
  dfsIndex := moduleNone
  dfsAncestorIndex := moduleNone
  cycleRoot := none
  asyncEvaluationOrder := asyncUnset
  pendingAsyncDependencies := 0
  asyncParents := []

/-- One evaluator call, with the records as the call found them. -/
structure EvaluatorCall (n : ℕ) (V : Type) where
  module : Fin n
  records : Fin n → ModuleRecord n V
  result : Result V

/-- The table during a run. `stack` has its top first. The last three fields are not in
the C table: the reactions `module_execute_async` attached and the event loop has not run
yet (with the error, where the call itself threw), the calls made, and whether a counter
was ever decremented at zero. -/
structure ModuleState (n : ℕ) (V : Type) where
  records : Fin n → ModuleRecord n V
  stack : List (Fin n)
  asyncEvaluationCount : ℕ
  evaluating : Bool
  reactions : List (Fin n × Option V)
  calls : List (EvaluatorCall n V)
  underflow : Bool

/-- The table as installed. -/
def ModuleState.initial (n : ℕ) (V : Type) [Inhabited V] : ModuleState n V where
  records := fun _ => .initial n V
  stack := []
  asyncEvaluationCount := 0
  evaluating := false
  reactions := []
  calls := []
  underflow := false

variable {n : ℕ} {V : Type}

/-- Replaces one record. -/
def ModuleState.update (s : ModuleState n V) (i : Fin n)
    (f : ModuleRecord n V → ModuleRecord n V) : ModuleState n V :=
  { s with records := Function.update s.records i (f (s.records i)) }

@[simp] lemma ModuleState.update_records_self (s : ModuleState n V) (i : Fin n)
    (f : ModuleRecord n V → ModuleRecord n V) :
    (s.update i f).records i = f (s.records i) := by
  simp [ModuleState.update]

lemma ModuleState.update_records_of_ne (s : ModuleState n V) {i j : Fin n}
    (f : ModuleRecord n V → ModuleRecord n V) (h : j ≠ i) :
    (s.update i f).records j = s.records j := by
  simp [ModuleState.update, Function.update_of_ne h]

attribute [simps stack asyncEvaluationCount evaluating reactions calls underflow]
  ModuleState.update

/-- A record's `[[CycleRoot]]`, or the record itself while it has none. -/
def ModuleState.moduleCycleRoot (s : ModuleState n V) (i : Fin n) : Fin n :=
  (s.records i).cycleRoot.getD i

/-- `[[AsyncEvaluationOrder]]` is an integer. -/
def ModuleRecord.asyncPending (r : ModuleRecord n V) : Bool :=
  r.asyncEvaluationOrder != asyncUnset && r.asyncEvaluationOrder != asyncDone

/-! ## Calling evaluators -/

/-- Appends a module to `async_parents`. -/
def moduleAddAsyncParent (s : ModuleState n V) (required parent : Fin n) : ModuleState n V :=
  s.update required fun r => { r with asyncParents := r.asyncParents ++ [parent] }

/-- Calls a module's compiled evaluator: the script has its result. -/
def moduleCallEvaluator (script : ℕ → Result V) (s : ModuleState n V) (i : Fin n) :
    Result V × ModuleState n V :=
  (script s.calls.length,
    { s with calls := s.calls ++ [⟨i, s.records, script s.calls.length⟩] })

/-- ExecuteAsyncModule. A call that throws leaves a promise already rejected with its
error, so either way a reaction is attached. -/
def moduleExecuteAsync (script : ℕ → Result V) (s : ModuleState n V) (i : Fin n) :
    Result V × ModuleState n V :=
  match moduleCallEvaluator script s i with
  | (.normal, s) => (.normal, { s with reactions := s.reactions ++ [(i, none)] })
  | (.throw error, s) =>
    (.normal, { s with reactions := s.reactions ++ [(i, some error)] })
  | (.failure, s) => (.failure, s)

/-! ## The frame loop -/

/-- One InnerModuleEvaluation activation: the module, its next request position, and
whether that request entered a module whose frame is above this one. -/
structure ModuleFrame (n : ℕ) where
  module : Fin n
  position : ℕ
  enteredRequest : Bool
deriving DecidableEq, Repr

/-- The walk in progress: the table, the frames with their top first, and the next DFS
index. -/
structure Walk (n : ℕ) (V : Type) where
  state : ModuleState n V
  frames : List (ModuleFrame n)
  dfsIndex : ℕ

/-- The outcome of entering one module in InnerModuleEvaluation. -/
inductive ModuleVisit
  | entered
  | skipped
deriving DecidableEq, Repr

/-- The table after a linked module joins the stack. -/
def modulePush (s : ModuleState n V) (dfsIndex : ℕ) (i : Fin n) : ModuleState n V :=
  let s := s.update i fun r =>
    { r with
      status := .evaluating
      dfsIndex := dfsIndex
      dfsAncestorIndex := dfsIndex
      pendingAsyncDependencies := 0 }
  { s with stack := i :: s.stack }

/-- Steps 2 through 6 of InnerModuleEvaluation. -/
def moduleEnter (w : Walk n V) (i : Fin n) : Result V × ModuleVisit × Walk n V :=
  let r := w.state.records i
  if r.status = .evaluatingAsync ∨ r.status = .evaluated then
    if r.errored then (.throw r.evaluationError, .skipped, w) else (.normal, .skipped, w)
  else if r.status = .evaluating then
    (.normal, .skipped, w)
  else
    (.normal, .entered,
      { state := modulePush w.state w.dfsIndex i
        frames := ⟨i, 0, false⟩ :: w.frames
        dfsIndex := w.dfsIndex + 1 })

/-- Step 7.b of InnerModuleEvaluation for one evaluated request. -/
def moduleAfterRequest (s : ModuleState n V) (i required : Fin n) :
    Result V × ModuleState n V :=
  let wait (s : ModuleState n V) (required : Fin n) : Result V × ModuleState n V :=
    if (s.records required).asyncPending then
      let s := s.update i fun r =>
        { r with
          pendingAsyncDependencies := (r.pendingAsyncDependencies + 1) % sizeLimit }
      (.normal, moduleAddAsyncParent s required i)
    else
      (.normal, s)
  if (s.records required).status = .evaluating then
    if (s.records required).dfsAncestorIndex < (s.records i).dfsAncestorIndex then
      wait (s.update i fun r =>
        { r with dfsAncestorIndex := (s.records required).dfsAncestorIndex }) required
    else
      wait s required
  else
    let required := s.moduleCycleRoot required
    if (s.records required).errored then
      (.throw (s.records required).evaluationError, s)
    else
      wait s required

/-- The loop that pops a finished cycle off the stack, down to its root. -/
def modulePop (index : Fin n) : List (Fin n) → ModuleState n V → ModuleState n V
  | [], s => { s with stack := [] }
  | member :: rest, s =>
    let s := s.update member fun r =>
      { r with
        status :=
          if r.asyncEvaluationOrder = asyncUnset then .evaluated else .evaluatingAsync
        cycleRoot := some index }
    if member = index then { s with stack := rest } else modulePop index rest s

/-- The pop at the end of steps 8 through 12, taken by a cycle root only. -/
def modulePopCycle (s : ModuleState n V) (index : Fin n) : ModuleState n V :=
  if (s.records index).dfsAncestorIndex = (s.records index).dfsIndex then
    modulePop index s.stack s
  else
    s

/-- Steps 8 through 12 of InnerModuleEvaluation, after every request. -/
def moduleAfterRequests (g : ModuleGraph n) (script : ℕ → Result V) (s : ModuleState n V)
    (index : Fin n) : Result V × ModuleState n V :=
  if 0 < (s.records index).pendingAsyncDependencies ∨ g.hasTopLevelAwait index then
    let count := (s.asyncEvaluationCount + 1) % sizeLimit
    let s := { s with asyncEvaluationCount := count }
    let s := s.update index fun r => { r with asyncEvaluationOrder := count }
    if (s.records index).pendingAsyncDependencies = 0 then
      match moduleExecuteAsync script s index with
      | (.normal, s) => (.normal, modulePopCycle s index)
      | (result, s) => (result, s)
    else
      (.normal, modulePopCycle s index)
  else
    match moduleCallEvaluator script s index with
    | (.normal, s) => (.normal, modulePopCycle s index)
    | (result, s) => (result, s)

/-- One iteration of the frame loop, on a nonempty frame stack. -/
def moduleFrameStep (g : ModuleGraph n) (script : ℕ → Result V) (w : Walk n V)
    (frame : ModuleFrame n) (rest : List (ModuleFrame n)) : Result V × Walk n V :=
  let afterRequest (required : Fin n) : Result V × Walk n V :=
    let (result, s) := moduleAfterRequest w.state frame.module required
    (result,
      { w with state := s, frames := ⟨frame.module, frame.position + 1, false⟩ :: rest })
  match (g.requested frame.module)[frame.position]? with
  | none =>
    let (result, s) := moduleAfterRequests g script w.state frame.module
    (result, { w with state := s, frames := rest })
  | some required =>
    if frame.enteredRequest then
      afterRequest required
    else
      match moduleEnter w required with
      | (.normal, .entered, w') =>
        -- The pushed frame is on top; this one resumes at step 7.b after it.
        (.normal,
          { w' with
            frames := ⟨required, 0, false⟩ :: ⟨frame.module, frame.position, true⟩ :: rest })
      | (.normal, .skipped, _) => afterRequest required
      | (result, _, w') => (result, w')

/-- The frame loop. -/
def moduleFrameLoop (g : ModuleGraph n) (script : ℕ → Result V) :
    ℕ → Walk n V → Option (Result V × Walk n V)
  | 0, _ => none
  | fuel + 1, w =>
    match w.frames with
    | [] => some (.normal, w)
    | frame :: rest =>
      match moduleFrameStep g script w frame rest with
      | (.normal, w) => moduleFrameLoop g script fuel w
      | (result, w) => some (result, w)

/-- InnerModuleEvaluation over an explicit frame stack. -/
def moduleInnerEvaluation (g : ModuleGraph n) (script : ℕ → Result V) (fuel : ℕ)
    (s : ModuleState n V) (index : Fin n) : Option (Result V × ModuleState n V) :=
  match moduleEnter ⟨s, [], 0⟩ index with
  | (.normal, _, w) =>
    (moduleFrameLoop g script fuel w).map fun (result, w) => (result, w.state)
  | (result, _, w) => some (result, w.state)

/-! ## Evaluate -/

/-- Settles a record's top-level capability when it has one that is still pending. -/
def moduleSettleCapability (s : ModuleState n V) (i : Fin n) (fulfilled : Bool) :
    ModuleState n V :=
  s.update i fun r =>
    match r.topLevelCapability, fulfilled with
    | .pending, true => { r with topLevelCapability := .fulfilled }
    | .pending, false => { r with topLevelCapability := .rejected r.evaluationError }
    | _, _ => r

/-- Records an error on every module left on the stack. -/
def moduleFailStack (error : V) : List (Fin n) → ModuleState n V → ModuleState n V
  | [], s => s
  | member :: rest, s =>
    moduleFailStack error rest (s.update member fun r =>
      { r with status := .evaluated, errored := true, evaluationError := error })

/-- Evaluate, on the record it has redirected to. -/
def moduleEvaluateRecord (g : ModuleGraph n) (script : ℕ → Result V) (fuel : ℕ)
    (s : ModuleState n V) (index : Fin n) : Option (Result V × ModuleState n V) :=
  if (s.records index).topLevelCapability.isPromise then
    some (.normal, s)
  else if s.evaluating then
    some (.failure, s)
  else
    let s := s.update index fun r => { r with topLevelCapability := .pending }
    let s := { s with stack := [], evaluating := true }
    match moduleInnerEvaluation g script fuel s index with
    | none => none
    | some (result, s) =>
      let s := { s with evaluating := false }
      match result with
      | .throw error =>
        let s := { moduleFailStack error s.stack s with stack := [] }
        let s := s.update index fun r =>
          if r.errored then r else { r with errored := true, evaluationError := error }
        some (.normal, moduleSettleCapability s index false)
      | .normal =>
        if (s.records index).status = .evaluated then
          some (.normal, moduleSettleCapability s index true)
        else
          some (.normal, s)
      | .failure => some (.failure, s)

/-- The record Evaluate works on: the cycle root of a module already evaluated. -/
def ModuleState.evaluationTarget (s : ModuleState n V) (index : Fin n) : Fin n :=
  if (s.records index).status = .evaluatingAsync ∨ (s.records index).status = .evaluated then
    s.moduleCycleRoot index
  else
    index

/-- Evaluate. The promise it returns is the capability of `evaluationTarget`. -/
def moduleEvaluate (g : ModuleGraph n) (script : ℕ → Result V) (fuel : ℕ)
    (s : ModuleState n V) (index : Fin n) : Option (Result V × ModuleState n V) :=
  moduleEvaluateRecord g script fuel s (s.evaluationTarget index)

/-! ## Evaluate by recursion

ECMA-262's Evaluate and InnerModuleEvaluation (16.2.1.6) over the same records. Each nested call
marks one more module as evaluating, so as many calls as there are modules suffice as `fuel`.
-/

/-- Steps 5 through 10: a linked module joins the stack. -/
def specBegin (s : ModuleState n V) (index : ℕ) (module : Fin n) : ModuleState n V :=
  { s.update module fun r =>
      { r with
        status := .evaluating
        dfsIndex := index
        dfsAncestorIndex := index
        pendingAsyncDependencies := 0 } with
    stack := module :: s.stack }

/-- Step 11.c.v: `module` waits on `required` when its `[[AsyncEvaluationOrder]]` is an
integer. -/
def specWait (s : ModuleState n V) (module required : Fin n) : ModuleState n V :=
  if (s.records required).asyncPending then
    (s.update module fun r =>
      { r with
        pendingAsyncDependencies := (r.pendingAsyncDependencies + 1) % sizeLimit }).update
      required fun r => { r with asyncParents := r.asyncParents ++ [module] }
  else
    s

/-- Step 11.c, after the nested evaluation of one request. -/
def specAfterInner (s : ModuleState n V) (module required : Fin n) :
    Result V × ModuleState n V :=
  if (s.records required).status = .evaluating then
    (.normal, specWait
      (s.update module fun r =>
        { r with
          dfsAncestorIndex :=
            min r.dfsAncestorIndex (s.records required).dfsAncestorIndex })
      module required)
  else
    let cycleRoot := s.moduleCycleRoot required
    if (s.records cycleRoot).errored then
      (.throw (s.records cycleRoot).evaluationError, s)
    else
      (.normal, specWait s module cycleRoot)

/-- Step 16: the members of a finished cycle, down to its root, leave the stack. -/
def specEndCycle (module : Fin n) : List (Fin n) → ModuleState n V → ModuleState n V
  | [], s => { s with stack := [] }
  | requiredModule :: rest, s =>
    let s := s.update requiredModule fun r =>
      { r with
        status :=
          if r.asyncEvaluationOrder = asyncUnset then .evaluated else .evaluatingAsync
        cycleRoot := some module }
    if requiredModule = module then { s with stack := rest } else specEndCycle module rest s

/-- Steps 12 and 13: the module waits, starts asynchronously, or executes. -/
def specExecute (g : ModuleGraph n) (script : ℕ → Result V) (s : ModuleState n V)
    (module : Fin n) : Result V × ModuleState n V :=
  if 0 < (s.records module).pendingAsyncDependencies ∨ g.hasTopLevelAwait module then
    let order := (s.asyncEvaluationCount + 1) % sizeLimit
    let s := { s with asyncEvaluationCount := order }.update module fun r =>
      { r with asyncEvaluationOrder := order }
    if (s.records module).pendingAsyncDependencies = 0 then
      moduleExecuteAsync script s module
    else
      (.normal, s)
  else
    moduleCallEvaluator script s module

/-- Steps 12 through 17. -/
def specEnd (g : ModuleGraph n) (script : ℕ → Result V) (s : ModuleState n V)
    (module : Fin n) : Result V × ModuleState n V :=
  match specExecute g script s module with
  | (.normal, s) =>
    if (s.records module).dfsAncestorIndex = (s.records module).dfsIndex then
      (.normal, specEndCycle module s.stack s)
    else
      (.normal, s)
  | out => out

/-- Step 11: the requests in order, each evaluated by `inner`. -/
def specRequests (inner : ModuleState n V → ℕ → Fin n → Option (Result V × ModuleState n V × ℕ))
    (module : Fin n) :
    List (Fin n) → ModuleState n V → ℕ → Option (Result V × ModuleState n V × ℕ)
  | [], s, index => some (.normal, s, index)
  | required :: rest, s, index =>
    match inner s index required with
    | some (.normal, s, index) =>
      match specAfterInner s module required with
      | (.normal, s) => specRequests inner module rest s index
      | (result, s) => some (result, s, index)
    | out => out

/-- Steps 2 and 3: a module already evaluated reports its error, if it has one. -/
def specVisited (s : ModuleState n V) (module : Fin n) : Result V :=
  if (s.records module).status ≠ .evaluating ∧ (s.records module).errored then
    .throw (s.records module).evaluationError
  else
    .normal

/-- InnerModuleEvaluation. -/
def specInner (g : ModuleGraph n) (script : ℕ → Result V) :
    ℕ → ModuleState n V → ℕ → Fin n → Option (Result V × ModuleState n V × ℕ)
  | 0, s, index, module =>
    if (s.records module).status = .linked then none
    else some (specVisited s module, s, index)
  | fuel + 1, s, index, module =>
    if (s.records module).status = .linked then
      match specRequests (specInner g script fuel) module (g.requested module)
          (specBegin s index module) (index + 1) with
      | some (.normal, s, index) =>
        let (result, s) := specEnd g script s module
        some (result, s, index)
      | out => out
    else some (specVisited s module, s, index)

scoped instance lawfulModules : LawfulBEq (Fin n) := inferInstance

/-- Steps 9 and 10 of Evaluate: the outcome of InnerModuleEvaluation. -/
def specConclude (module : Fin n) : Result V × ModuleState n V → Result V × ModuleState n V
  | (.throw error, s) =>
    let s := { s with
      records := fun m =>
        if m ∈ s.stack then
          { s.records m with status := .evaluated, errored := true, evaluationError := error }
        else s.records m
      stack := [] }
    (.normal, moduleSettleCapability s module false)
  | (.normal, s) =>
    if (s.records module).status = .evaluated then
      (.normal, moduleSettleCapability s module true)
    else
      (.normal, s)
  | (.failure, s) => (.failure, s)

/-- Evaluate, on the module step 3 leaves. -/
def specEvaluateModule (g : ModuleGraph n) (script : ℕ → Result V) (s : ModuleState n V)
    (module : Fin n) : Option (Result V × ModuleState n V) :=
  if (s.records module).topLevelCapability.isPromise then
    some (.normal, s)
  else
    let s := s.update module fun r => { r with topLevelCapability := .pending }
    -- The flag marks the call in progress, which step 1 asserts to be the only one.
    (specInner g script n { s with stack := [], evaluating := true } 0 module).map
      fun (result, s, _) => specConclude module (result, { s with evaluating := false })

/-- Evaluate. -/
def specEvaluate (g : ModuleGraph n) (script : ℕ → Result V) (s : ModuleState n V)
    (module : Fin n) : Option (Result V × ModuleState n V) :=
  specEvaluateModule g script s (s.evaluationTarget module)

/-! ## Settlements of suspended bodies

GatherAvailableAncestors, AsyncModuleExecutionRejected and AsyncModuleExecutionFulfilled as
`runtime_module.c` runs them, over explicit worklists, and the run of a whole program: any
interleaving of Evaluate calls and settlements.

Each worklist loop is given `fuel` iterations; a run step holds for any fuel that suffices,
and some fuel always does.
-/

open Oseo.Library

/-! ## GatherAvailableAncestors -/

/-- `pending_async_dependencies -= 1u` on a `size_t`, noting whether it wrapped. -/
def moduleDecrementPending (s : ModuleState n V) (i : Fin n) : ModuleState n V :=
  let pending := (s.records i).pendingAsyncDependencies
  { s.update i fun r =>
      { r with pendingAsyncDependencies := (pending + (sizeLimit - 1)) % sizeLimit } with
    underflow := s.underflow || pending == 0 }

/-- The gathered list and the worklist, each with its last entry at the head. -/
structure Gathering (n : ℕ) (V : Type) where
  state : ModuleState n V
  list : List (Fin n)
  work : List (Fin n)

/-- The visit of one async parent. -/
def moduleGatherParent (g : ModuleGraph n) (q : Gathering n V) (parent : Fin n) :
    Gathering n V :=
  let s := q.state
  if (s.records parent).gathered ∨ (s.records (s.moduleCycleRoot parent)).errored then
    q
  else
    let s := moduleDecrementPending s parent
    if (s.records parent).pendingAsyncDependencies = 0 then
      { state := s.update parent fun r => { r with gathered := true }
        list := parent :: q.list
        work := if g.hasTopLevelAwait parent then q.work else parent :: q.work }
    else
      { q with state := s }

/-- The worklist loop. -/
def moduleGatherLoop (g : ModuleGraph n) : ℕ → Gathering n V → Option (Gathering n V)
  | 0, _ => none
  | fuel + 1, q =>
    match q.work with
    | [] => some q
    | module :: work =>
      moduleGatherLoop g fuel
        ((q.state.records module).asyncParents.foldl (moduleGatherParent g)
          { q with work := work })

/-- Clears the flag of every listed module. -/
def moduleClearGathered : List (Fin n) → ModuleState n V → ModuleState n V
  | [], s => s
  | item :: rest, s =>
    moduleClearGathered rest (s.update item fun r => { r with gathered := false })

/-- GatherAvailableAncestors: the list in the order it grew. -/
def moduleGatherAvailableAncestors (g : ModuleGraph n) (fuel : ℕ) (s : ModuleState n V)
    (index : Fin n) : Option (List (Fin n) × ModuleState n V) :=
  (moduleGatherLoop g fuel ⟨s, [], [index]⟩).map fun q =>
    (q.list.reverse, moduleClearGathered q.list.reverse q.state)

/-! ## AsyncModuleExecutionRejected -/

/-- The first visit of a module: it records the error and rejects its capability. -/
def moduleReject (error : V) (s : ModuleState n V) (i : Fin n) : ModuleState n V :=
  moduleSettleCapability (s.update i fun r =>
    { r with
      errored := true
      evaluationError := error
      status := .evaluated
      asyncEvaluationOrder := asyncDone }) i false

/-- The cursor loop. A cursor is a module with its async parents not yet followed, and
`next` is the module just reached, if any. -/
def moduleRejectLoop (error : V) :
    ℕ → Option (Fin n) → List (Fin n × ℕ) → ModuleState n V → Option (ModuleState n V)
  | 0, _, _, _ => none
  | fuel + 1, next, cursors, s =>
    match next with
    | some next =>
      if (s.records next).status = .evaluated then
        moduleRejectLoop error fuel none cursors s
      else
        moduleRejectLoop error fuel none ((next, 0) :: cursors) (moduleReject error s next)
    | none =>
      match cursors with
      | [] => some s
      | (top, position) :: rest =>
        match (s.records top).asyncParents[position]? with
        | none => moduleRejectLoop error fuel none rest s
        | some parent => moduleRejectLoop error fuel (some parent) ((top, position + 1) :: rest) s

/-- AsyncModuleExecutionRejected. -/
def moduleAsyncRejected (fuel : ℕ) (s : ModuleState n V) (index : Fin n) (error : V) :
    Option (ModuleState n V) :=
  moduleRejectLoop error fuel (some index) [] s

/-! ## AsyncModuleExecutionFulfilled -/

/-- A module finishes its asynchronous evaluation. -/
def moduleFinish (s : ModuleState n V) (i : Fin n) : ModuleState n V :=
  moduleSettleCapability (s.update i fun r =>
    { r with asyncEvaluationOrder := asyncDone, status := .evaluated }) i true

/-- One gathered module's turn. -/
def moduleRunGathered (g : ModuleGraph n) (script : ℕ → Result V) (fuel : ℕ)
    (s : ModuleState n V) (member : Fin n) : Option (Result V × ModuleState n V) :=
  if (s.records member).status = .evaluated then
    some (.normal, s)
  else if g.hasTopLevelAwait member then
    some (moduleExecuteAsync script s member)
  else
    match moduleCallEvaluator script s member with
    | (.normal, s) => some (.normal, moduleFinish s member)
    | (.throw error, s) => (moduleAsyncRejected fuel s member error).map fun s => (.normal, s)
    | (.failure, s) => some (.failure, s)

/-- The loop over the gathered modules in their sorted order. -/
def moduleRunAllGathered (g : ModuleGraph n) (script : ℕ → Result V) (fuel : ℕ) :
    List (Fin n) → ModuleState n V → Option (Result V × ModuleState n V)
  | [], s => some (.normal, s)
  | member :: rest, s =>
    match moduleRunGathered g script fuel s member with
    | some (.normal, s) => moduleRunAllGathered g script fuel rest s
    | out => out

/-- The gathered modules by ascending `[[AsyncEvaluationOrder]]`. -/
def moduleSortGathered (s : ModuleState n V) (list : List (Fin n)) : List (Fin n) :=
  list.insertionSort fun a b =>
    (s.records a).asyncEvaluationOrder ≤ (s.records b).asyncEvaluationOrder

/-- AsyncModuleExecutionFulfilled. -/
def moduleAsyncFulfilled (g : ModuleGraph n) (script : ℕ → Result V) (fuel : ℕ)
    (s : ModuleState n V) (index : Fin n) : Option (Result V × ModuleState n V) :=
  if (s.records index).status = .evaluated then
    some (.normal, s)
  else
    match moduleGatherAvailableAncestors g fuel (moduleFinish s index) index with
    | none => none
    | some (list, s) => moduleRunAllGathered g script fuel (moduleSortGathered s list) s

/-! ## Runs -/

/-- How the promise of a suspended body settles. -/
inductive Settlement (V : Type)
  | fulfilled
  | rejected (error : V)
deriving DecidableEq, Repr

/-- One job: an Evaluate call, from the entry or from `import()`, or the reaction to a
settled body. -/
inductive ModuleEvent (n : ℕ) (V : Type)
  | evaluate (index : Fin n)
  | settle (index : Fin n) (settlement : Settlement V)
deriving DecidableEq, Repr

/-- The settlement a reaction may see: its own error, when the evaluator call threw. -/
def Settlement.allowed : Option V → Settlement V → Prop
  | none, _ => True
  | some error, settlement => settlement = .rejected error

instance [DecidableEq V] (error : Option V) (settlement : Settlement V) :
    Decidable (settlement.allowed error) := by
  cases error <;> unfold Settlement.allowed <;> infer_instance

/-- One job from start to end. -/
inductive ModuleStep (g : ModuleGraph n) (script : ℕ → Result V) :
    ModuleState n V → ModuleEvent n V → Result V → ModuleState n V → Prop
  | evaluate {s s' : ModuleState n V} {index : Fin n} {result : Result V} (fuel : ℕ)
      (h : moduleEvaluate g script fuel s index = some (result, s')) :
      ModuleStep g script s (.evaluate index) result s'
  | fulfilled {s s' : ModuleState n V} {index : Fin n} {before after : List (Fin n × Option V)}
      {result : Result V} (fuel : ℕ)
      (hr : s.reactions = before ++ (index, none) :: after)
      (h : moduleAsyncFulfilled g script fuel { s with reactions := before ++ after } index
        = some (result, s')) :
      ModuleStep g script s (.settle index .fulfilled) result s'
  | rejected {s s' : ModuleState n V} {index : Fin n} {before after : List (Fin n × Option V)}
      {own : Option V} {error : V} (fuel : ℕ)
      (hr : s.reactions = before ++ (index, own) :: after)
      (hown : (Settlement.rejected error).allowed own)
      (h : moduleAsyncRejected fuel { s with reactions := before ++ after } index error
        = some s') :
      ModuleStep g script s (.settle index (.rejected error)) .normal s'

/-- Takes the first reaction of a module off the event loop. -/
def takeReaction (index : Fin n) :
    List (Fin n × Option V) → Option (Option V × List (Fin n × Option V))
  | [] => none
  | (x, own) :: rest =>
    if x = index then some (own, rest)
    else (takeReaction index rest).map fun (own', rest) => (own', (x, own) :: rest)

/-- Runs one job, on the first reaction of the module it settles. -/
def moduleJob [DecidableEq V] (g : ModuleGraph n) (script : ℕ → Result V) (fuel : ℕ)
    (s : ModuleState n V) : ModuleEvent n V → Option (Result V × ModuleState n V)
  | .evaluate index => moduleEvaluate g script fuel s index
  | .settle index settlement =>
    match takeReaction index s.reactions with
    | none => none
    | some (own, reactions) =>
      if settlement.allowed own then
        match settlement with
        | .fulfilled => moduleAsyncFulfilled g script fuel { s with reactions := reactions } index
        | .rejected error =>
          (moduleAsyncRejected fuel { s with reactions := reactions } index error).map
            fun s => (.normal, s)
      else none

/-- Runs jobs while they end normally. -/
def moduleJobs [DecidableEq V] (g : ModuleGraph n) (script : ℕ → Result V) (fuel : ℕ) :
    List (ModuleEvent n V) → ModuleState n V → Option (Result V × ModuleState n V)
  | [], s => some (.normal, s)
  | event :: events, s =>
    match moduleJob g script fuel s event with
    | some (.normal, s) => moduleJobs g script fuel events s
    | _ => none

/-- The table as a transition system. A job that ends in a host diagnostic is the last. -/
def moduleSystem (g : ModuleGraph n) (script : ℕ → Result V)
    (a : Result V × ModuleState n V) (event : ModuleEvent n V)
    (b : Result V × ModuleState n V) : Prop :=
  a.1 = .normal ∧ ModuleStep g script a.2 event b.1 b.2

/-- A run from a table, with the jobs in order and the result of the last one. -/
abbrev ModuleRuns (g : ModuleGraph n) (script : ℕ → Result V) (s : ModuleState n V)
    (events : List (ModuleEvent n V)) (result : Result V) (s' : ModuleState n V) : Prop :=
  Steps (moduleSystem g script) (.normal, s) events (result, s')

/-- A run from the installed table. -/
abbrev ModuleRun [Inhabited V] (g : ModuleGraph n) (script : ℕ → Result V)
    (events : List (ModuleEvent n V)) (result : Result V) (s : ModuleState n V) : Prop :=
  ModuleRuns g script (.initial n V) events result s

/-! ## What evaluation keeps true

The invariant of the module table. `Consistent` holds at every point of a run; `Counted`
says that a waiting module's counter is the number of its entries in the parent lists of
unfinished modules; `OnPath` is what the depth-first walk adds while it is in progress.
-/

/-! ## The graph -/

/-- `m` imports `r`, directly or transitively, or is `r`. -/
def ModuleGraph.Imports (g : ModuleGraph n) : Fin n → Fin n → Prop :=
  Relation.ReflTransGen fun m r => r ∈ g.requested m

/-- Two modules import each other. -/
def ModuleGraph.SameCycle (g : ModuleGraph n) (a b : Fin n) : Prop :=
  g.Imports a b ∧ g.Imports b a

lemma ModuleGraph.Imports.refl {g : ModuleGraph n} (m : Fin n) : g.Imports m m :=
  Relation.ReflTransGen.refl

lemma ModuleGraph.Imports.trans {g : ModuleGraph n} {a b c : Fin n} (h : g.Imports a b)
    (h' : g.Imports b c) : g.Imports a c :=
  Relation.ReflTransGen.trans h h'

lemma ModuleGraph.imports_of_mem {g : ModuleGraph n} {m r : Fin n}
    (h : r ∈ g.requested m) : g.Imports m r :=
  Relation.ReflTransGen.single h

lemma ModuleGraph.SameCycle.refl {g : ModuleGraph n} (m : Fin n) : g.SameCycle m m :=
  ⟨.refl m, .refl m⟩

lemma ModuleGraph.SameCycle.symm {g : ModuleGraph n} {a b : Fin n} (h : g.SameCycle a b) :
    g.SameCycle b a :=
  ⟨h.2, h.1⟩

lemma ModuleGraph.SameCycle.trans {g : ModuleGraph n} {a b c : Fin n}
    (h : g.SameCycle a b) (h' : g.SameCycle b c) : g.SameCycle a c :=
  ⟨h.1.trans h'.1, h'.2.trans h.2⟩

/-! ## Reading the table -/

/-- The status of a module. -/
abbrev ModuleState.status (s : ModuleState n V) (m : Fin n) : ModuleStatus :=
  (s.records m).status

/-- Whether a module ended with an error. -/
abbrev ModuleState.errored (s : ModuleState n V) (m : Fin n) : Bool := (s.records m).errored

/-- The `[[AsyncEvaluationOrder]]` of a module. -/
abbrev ModuleState.order (s : ModuleState n V) (m : Fin n) : ℕ :=
  (s.records m).asyncEvaluationOrder

/-- The async parents of a module. -/
abbrev ModuleState.parents (s : ModuleState n V) (m : Fin n) : List (Fin n) :=
  (s.records m).asyncParents

/-- The pending async dependencies of a module. -/
abbrev ModuleState.pending (s : ModuleState n V) (m : Fin n) : ℕ :=
  (s.records m).pendingAsyncDependencies

/-- The recorded cycle root of a module. -/
abbrev ModuleState.cycleRoot (s : ModuleState n V) (m : Fin n) : Option (Fin n) :=
  (s.records m).cycleRoot

/-- The recorded error of a module. -/
abbrev ModuleState.evaluationError (s : ModuleState n V) (m : Fin n) : V :=
  (s.records m).evaluationError

/-- The DFS index of a module. -/
abbrev ModuleState.dfsIndex (s : ModuleState n V) (m : Fin n) : ℕ := (s.records m).dfsIndex

/-- The DFS ancestor index of a module. -/
abbrev ModuleState.ancestor (s : ModuleState n V) (m : Fin n) : ℕ :=
  (s.records m).dfsAncestorIndex

/-- A module has left the stack. -/
def ModuleState.Off (s : ModuleState n V) (m : Fin n) : Prop :=
  s.status m = .evaluatingAsync ∨ s.status m = .evaluated

/-- A module has finished successfully. -/
def ModuleRecord.Finished (r : ModuleRecord n V) : Prop :=
  r.status = .evaluated ∧ r.errored = false

/-- A module has finished successfully. -/
abbrev ModuleState.Finished (s : ModuleState n V) (m : Fin n) : Prop := (s.records m).Finished

/-- A module that others wait for. -/
def ModuleState.Unfinished (s : ModuleState n V) (m : Fin n) : Prop :=
  s.order m ≠ asyncUnset ∧ s.status m ≠ .evaluated

instance (s : ModuleState n V) (m : Fin n) : Decidable (s.Unfinished m) :=
  inferInstanceAs (Decidable (_ ∧ _))

/-- The number of entries of `m` in the parent lists of unfinished modules, not counting
those of the modules in `except`. -/
def ModuleState.waits (s : ModuleState n V) (except : List (Fin n)) (m : Fin n) : ℕ :=
  ∑ x, if s.Unfinished x ∧ x ∉ except then (s.parents x).count m else 0

/-- The number of entries of `m` in all parent lists. -/
def ModuleState.entries (s : ModuleState n V) (m : Fin n) : ℕ :=
  ∑ x, (s.parents x).count m

/-- The modules whose evaluator was called. -/
def ModuleState.called (s : ModuleState n V) : List (Fin n) :=
  s.calls.map (·.module)

/-- The body of `x` threw `error`: its evaluator did, or its promise was rejected. -/
def ModuleState.Threw (s : ModuleState n V) (events : List (ModuleEvent n V)) (x : Fin n)
    (error : V) : Prop :=
  (∃ c ∈ s.calls, c.module = x ∧ c.result = .throw error) ∨
    .settle x (.rejected error) ∈ events

/-- Every error of `r` is still there in `r'`. -/
def ErrorsKept (r r' : Fin n → ModuleRecord n V) : Prop :=
  ∀ m, (r m).errored → (r' m).errored ∧ (r' m).evaluationError = (r m).evaluationError

/-- A call found every module that a request outside the caller's own cycle leads to
finished successfully. -/
def EvaluatorCall.Ready (g : ModuleGraph n) (c : EvaluatorCall n V) : Prop :=
  ∀ r ∈ g.requested c.module, ¬g.SameCycle c.module r →
    ∀ e, g.Imports r e → (c.records e).Finished

/-! ## The invariant -/

/-- A request of a module off the stack: it stays in the module's own cycle, or its cycle
has finished, or the module waits for that cycle's root. -/
def ModuleState.Edge (s : ModuleState n V) (m r : Fin n) : Prop :=
  s.moduleCycleRoot r = s.moduleCycleRoot m ∨ s.Finished (s.moduleCycleRoot r) ∨
    (s.status m = .evaluatingAsync ∧ s.status (s.moduleCycleRoot r) = .evaluatingAsync ∧
      m ∈ s.parents (s.moduleCycleRoot r))

/-- The invariant of the table, at any point of a run. -/
structure Consistent (g : ModuleGraph n) (events : List (ModuleEvent n V))
    (s : ModuleState n V) : Prop where
  stack_nodup : s.stack.Nodup
  mem_stack : ∀ m, m ∈ s.stack ↔ s.status m = .evaluating
  of_linked : ∀ m, s.status m = .linked →
    s.order m = asyncUnset ∧ s.cycleRoot m = none ∧ s.errored m = false ∧ m ∉ s.called
  of_stack : ∀ m, s.status m = .evaluating → s.cycleRoot m = none ∧ s.errored m = false
  of_async : ∀ m, s.status m = .evaluatingAsync → s.order m ≠ asyncUnset ∧ s.errored m = false
  of_finished : ∀ m, s.Finished m → s.order m = asyncUnset ∨ s.order m = asyncDone
  root_off : ∀ m, s.Off m →
    s.Off (s.moduleCycleRoot m) ∧
      s.moduleCycleRoot (s.moduleCycleRoot m) = s.moduleCycleRoot m ∧
      g.SameCycle m (s.moduleCycleRoot m)
  root_errored : ∀ m, s.errored m = true → s.errored (s.moduleCycleRoot m) = true
  root_waits : ∀ m, s.status m = .evaluatingAsync → s.moduleCycleRoot m ≠ m →
    s.errored (s.moduleCycleRoot m) = false →
    ∃ p ∈ s.parents m, s.moduleCycleRoot p = s.moduleCycleRoot m ∧
      s.status p = .evaluatingAsync
  edge : ∀ m, s.Off m → s.errored m = false → ∀ r ∈ g.requested m, s.Edge m r
  parent_status : ∀ x m, s.Unfinished x → m ∈ s.parents x →
    s.errored m = true ∨
      ((s.status m = .evaluatingAsync ∨ s.status m = .evaluating) ∧
        (s.order m ≠ asyncUnset → s.order x < s.order m))
  parent_visited : ∀ x m, m ∈ s.parents x → s.status m ≠ .linked
  parent_imports : ∀ x m, m ∈ s.parents x → g.Imports m x
  parent_errored : ∀ x m, s.errored x = true → m ∈ s.parents x → s.status m = .evaluated
  parent_stack : ∀ x m, s.status x = .evaluating → m ∈ s.parents x → s.status m = .evaluating
  parent_order : ∀ x m, m ∈ s.parents x → s.order x ≠ asyncUnset
  called_nodup : s.called.Nodup
  called_waits : ∀ m ∈ s.called, ∀ x, s.Unfinished x → m ∉ s.parents x
  calls_ready : ∀ c ∈ s.calls, c.Ready g
  calls_kept : s.calls.Pairwise fun c c' => ErrorsKept c.records c'.records
  errors_kept : ∀ c ∈ s.calls, ErrorsKept c.records s.records
  order_le : ∀ m, s.status m ≠ .evaluated → s.order m ≤ s.asyncEvaluationCount
  order_inj : ∀ x y, s.Unfinished x → s.Unfinished y → s.order x = s.order y → x = y
  count_le : s.asyncEvaluationCount ≤ (Finset.univ.filter fun m => s.order m ≠ asyncUnset).card
  threw : ∀ m, s.errored m = true →
    ∃ x, g.Imports m x ∧ s.Threw events x (s.evaluationError m)
  entries_le : ∀ m, s.entries m ≤ (g.requested m).length
  no_underflow : s.underflow = false

/-- A waiting module's counter is the number of its entries in the parent lists of the
unfinished modules outside `except`. -/
def Counted (s : ModuleState n V) (except : List (Fin n)) : Prop :=
  ∀ m, (s.status m = .evaluatingAsync ∧ s.errored (s.moduleCycleRoot m) = false) ∨
      s.status m = .evaluating →
    s.pending m = s.waits except m

/-! ## The walk in progress -/

/-- A request a module on the stack has behind it: its target is on the stack, above the
module's ancestor index and below every later activation, or it is off the stack. -/
def ModuleState.StackEdge (s : ModuleState n V) (path : List (Fin n × List (Fin n)))
    (m r : Fin n) : Prop :=
  (s.status r = .evaluating ∧ s.ancestor m ≤ s.dfsIndex r ∧
      ∀ f ∈ path, s.dfsIndex m < s.dfsIndex f.1 → s.dfsIndex r < s.dfsIndex f.1) ∨
    (s.Off r ∧ (s.Finished (s.moduleCycleRoot r) ∨
      (s.status (s.moduleCycleRoot r) = .evaluatingAsync ∧
        m ∈ s.parents (s.moduleCycleRoot r))))

/-- The activations in progress, innermost first, each with the requests behind it. -/
structure OnPath (g : ModuleGraph n) (s : ModuleState n V)
    (path : List (Fin n × List (Fin n))) (index : ℕ) : Prop where
  path_stack : ∀ f ∈ path, s.status f.1 = .evaluating
  path_index : path.Pairwise fun f f' => s.dfsIndex f'.1 < s.dfsIndex f.1
  path_done : ∀ f ∈ path, ∀ r ∈ f.2, s.StackEdge path f.1 r
  stack_index : s.stack.Pairwise fun a b => s.dfsIndex b < s.dfsIndex a
  index_lt : ∀ m, s.status m = .evaluating → s.dfsIndex m < index
  ancestor_le : ∀ m, s.status m = .evaluating → s.ancestor m ≤ s.dfsIndex m
  low : ∀ w, s.status w = .evaluating →
    ∃ u, s.status u = .evaluating ∧ s.dfsIndex u = s.ancestor w ∧ g.Imports w u
  up : ∀ w, s.status w = .evaluating →
    ∃ f ∈ path, s.dfsIndex f.1 ≤ s.dfsIndex w ∧ g.Imports w f.1
  down : ∀ w, s.status w = .evaluating → ∀ f ∈ path, s.dfsIndex f.1 ≤ s.dfsIndex w →
    g.Imports f.1 w
  parents_low : ∀ x m, s.status x = .evaluating → m ∈ s.parents x →
    s.ancestor m ≤ s.dfsIndex x
  off_ancestor : ∀ w, s.status w = .evaluating → w ∉ path.map Prod.fst →
    s.ancestor w < s.dfsIndex w
  off_done : ∀ w, s.status w = .evaluating → w ∉ path.map Prod.fst →
    ∀ r ∈ g.requested w, s.StackEdge path w r
  off_pending : ∀ w, s.status w = .evaluating → w ∉ path.map Prod.fst → 0 < s.pending w →
    s.order w ≠ asyncUnset
  off_nearest : ∀ w, s.status w = .evaluating → w ∉ path.map Prod.fst →
    ∀ f ∈ path, s.dfsIndex f.1 < s.dfsIndex w →
    ∃ f' ∈ path, s.dfsIndex f.1 ≤ s.dfsIndex f'.1 ∧ s.dfsIndex f'.1 < s.dfsIndex w ∧
      s.ancestor f'.1 ≤ s.ancestor w
  off_parent : ∀ w, s.status w = .evaluating → w ∉ path.map Prod.fst →
    s.order w ≠ asyncUnset →
    ∃ p ∈ s.parents w, s.status p = .evaluating ∧
      ∀ f ∈ path, s.dfsIndex f.1 < s.dfsIndex w → s.dfsIndex f.1 ≤ s.dfsIndex p

/-- No activation in progress has started its module, which waits at most once for each
request behind it. -/
def Fresh (s : ModuleState n V) (path : List (Fin n × List (Fin n))) : Prop :=
  ∀ f ∈ path, s.order f.1 = asyncUnset ∧ f.1 ∉ s.called ∧ s.entries f.1 ≤ f.2.length

end Oseo.ModuleEvaluation
