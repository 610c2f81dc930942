import Oseo.Library.Runs
import Oseo.Library.LinkedChain
import Mathlib.Algebra.Group.Nat.Defs

/-!
# Finalization registries

The finalization records of `runtime_memory.c`. A cell is one registration: it stays on its
registry's chain from the registration on, joins the cleanup queue when a collection finds
its target dead, and is consumed by the cleanup or by an unregistration.

* Heap objects that may be targets, holdings or tokens are of any type `T`;
* what tracing marked is a parameter of a collection, and `Marking.Closed` says that it
  followed the strong edges of these records;
* a loop along links is given as many turns as there are cells.

A collection inside a registration runs before the new cell exists, so it is one of its own.
-/

namespace Oseo.RuntimeMemory

/-- The address of a finalization cell. -/
abbrev CellRef := ℕ

/-- The address of a registry record. -/
abbrev RegistryRef := ℕ

/-- A value: a heap object or one that is not on the heap. -/
inductive HeapValue (T : Type)
  | heap (object : T)
  | immediate (bits : ℕ)
deriving DecidableEq

/-- `oseo_undefined`. -/
def HeapValue.undefined {T : Type} : HeapValue T := .immediate 0

/-- Whether the value is a heap object. -/
def HeapValue.isHeap {T : Type} : HeapValue T → Bool
  | .heap _ => true
  | .immediate _ => false

/-- A value that is a heap object without a mark. -/
def HeapValue.isDead {T : Type} (marked : T → Bool) : HeapValue T → Bool
  | .heap object => !marked object
  | .immediate _ => false

/-- `OseoFinalizationCell`. -/
structure FinalizationCell (T : Type) where
  next : Option CellRef
  queueNext : Option CellRef
  registry : RegistryRef
  target : HeapValue T
  holdings : HeapValue T
  unregisterToken : HeapValue T
  registrationOrder : ℕ
  queued : Bool
  processed : Bool

/-- The chain of a registry. -/
structure FinalizationRegistry where
  cellHead : Option CellRef
  cellTail : Option CellRef

/-- The finalization records of a context: those on its heap, in heap order, their memory,
and the cleanup queue. -/
structure Finalizations (T : Type) where
  cells : List CellRef
  registries : List RegistryRef
  cell : CellRef → FinalizationCell T
  registry : RegistryRef → FinalizationRegistry
  finalizationHead : Option CellRef
  finalizationTail : Option CellRef
  nextFinalizationOrder : ℕ
  finalizationPendingCount : ℕ

variable {T : Type}

/-- Writes one cell. -/
@[simps -fullyApplied cells registries registry finalizationHead finalizationTail
  nextFinalizationOrder finalizationPendingCount]
def Finalizations.setCell (s : Finalizations T) (c : CellRef)
    (f : FinalizationCell T → FinalizationCell T) : Finalizations T :=
  { s with cell := Function.update s.cell c (f (s.cell c)) }

/-- Writes one registry. -/
@[simps -fullyApplied cell cells registries finalizationHead finalizationTail
  nextFinalizationOrder finalizationPendingCount]
def Finalizations.setRegistry (s : Finalizations T) (r : RegistryRef)
    (f : FinalizationRegistry → FinalizationRegistry) : Finalizations T :=
  { s with registry := Function.update s.registry r (f (s.registry r)) }

/-! ## Registration -/

/-- `oseo_internal_finalization_registry_create`, at the address `r`. -/
def finalizationRegistryCreate (s : Finalizations T) (r : RegistryRef) : Finalizations T :=
  { s.setRegistry r fun _ => ⟨none, none⟩ with registries := r :: s.registries }

/-- What the environment decides during a registration: the address of the cell, if it could
be allocated, and the error of its publication, if there was one. -/
structure RegisterEnvironment where
  cell : Option CellRef
  publishError : Option String

/-- `oseo_internal_finalization_register_token`: the error, if there was one, and the
records then. -/
def finalizationRegisterToken [DecidableEq T] (s : Finalizations T)
    (registry : Option RegistryRef) (target holdings unregisterToken : HeapValue T)
    (env : RegisterEnvironment) : Option String × Finalizations T :=
  match registry with
  | none => (some "Value is not a finalization registry.", s)
  | some r =>
    if target.isHeap = false ∨ target = holdings then
      (some "Finalization target is invalid.", s)
    else if s.nextFinalizationOrder = 2 ^ 64 - 1 then
      (some "Finalization registration limit exceeded.", s)
    else
      match env.cell with
      | none => (some "Finalization cell allocation failed.", s)
      | some c =>
        if env.publishError.isSome then (env.publishError, s)
        else
          let s := { s with cells := c :: s.cells }
          let s := s.setCell c fun _ =>
            { next := none
              queueNext := none
              registry := r
              target := target
              holdings := holdings
              unregisterToken := unregisterToken
              registrationOrder := s.nextFinalizationOrder
              queued := false
              processed := false }
          let s := match (s.registry r).cellTail with
            | some tail => s.setCell tail fun cell => { cell with next := some c }
            | none => s.setRegistry r fun registry => { registry with cellHead := some c }
          let s := s.setRegistry r fun registry => { registry with cellTail := some c }
          (none, { s with nextFinalizationOrder := s.nextFinalizationOrder + 1 })

/-- Removes one registration; its cell stays where it is linked. -/
def unregisterCell (s : Finalizations T) (c : CellRef) : Finalizations T :=
  let queued := (s.cell c).queued
  let s := s.setCell c fun cell =>
    { cell with
      processed := true
      target := .undefined
      holdings := .undefined
      unregisterToken := .undefined }
  if queued then { s with finalizationPendingCount := s.finalizationPendingCount - 1 } else s

/-- The walk of `oseo_internal_finalization_unregister` over a registry's chain. -/
def unregisterCells [DecidableEq T] (unregisterToken : HeapValue T) :
    ℕ → Option CellRef → Bool → Finalizations T → Option (Bool × Finalizations T)
  | _, none, removed, s => some (removed, s)
  | 0, some _, _, _ => none
  | fuel + 1, some c, removed, s =>
    let cell := s.cell c
    if cell.processed = true ∨ cell.unregisterToken ≠ unregisterToken then
      unregisterCells unregisterToken fuel cell.next removed s
    else
      unregisterCells unregisterToken fuel cell.next true (unregisterCell s c)

/-- `oseo_internal_finalization_unregister`. -/
def finalizationUnregister [DecidableEq T] (s : Finalizations T) (registry : Option RegistryRef)
    (unregisterToken : HeapValue T) : Option (Bool × Finalizations T) :=
  match registry with
  | none => some (false, s)
  | some r =>
    if unregisterToken.isHeap = false then some (false, s)
    else unregisterCells unregisterToken s.cells.length (s.registry r).cellHead false s

/-! ## Cleanup -/

/-- A cleanup to run: the registration it belongs to, its registry and its holdings. -/
structure Cleanup (T : Type) where
  registrationOrder : ℕ
  registry : RegistryRef
  holdings : HeapValue T
deriving DecidableEq

/-- Unlinks a cell from the cleanup queue: `previous` is the cell kept before it. -/
def dequeueCell (s : Finalizations T) (previous : Option CellRef) (c : CellRef) :
    Finalizations T :=
  let next := (s.cell c).queueNext
  let s := match previous with
    | some p => s.setCell p fun cell => { cell with queueNext := next }
    | none => { s with finalizationHead := next }
  let s := if s.finalizationTail = some c then { s with finalizationTail := previous } else s
  s.setCell c fun cell => { cell with queueNext := none, queued := false }

/-- Consumes a cell for its cleanup. -/
def consumeCell (s : Finalizations T) (c : CellRef) : Finalizations T :=
  let s := s.setCell c fun cell => { cell with processed := true, holdings := .undefined }
  { s with finalizationPendingCount := s.finalizationPendingCount - 1 }

/-- The walk of `take_queued_cleanup`, behind the cell `previous`. -/
def takeQueuedCells (registry : Option RegistryRef) :
    ℕ → Option CellRef → Option CellRef → Finalizations T →
      Option (Option (Cleanup T) × Finalizations T)
  | _, _, none, s => some (none, s)
  | 0, _, some _, _ => none
  | fuel + 1, previous, some c, s =>
    let cell := s.cell c
    let matched := !cell.processed && (registry.isNone || registry == some cell.registry)
    if cell.processed = false ∧ matched = false then
      takeQueuedCells registry fuel (some c) cell.queueNext s
    else if matched = false then
      takeQueuedCells registry fuel previous cell.queueNext (dequeueCell s previous c)
    else
      some (some ⟨cell.registrationOrder, cell.registry, cell.holdings⟩,
        consumeCell (dequeueCell s previous c) c)

/-- `take_queued_cleanup`: `oseo_internal_finalization_take_cleanup` without a registry, and
`oseo_internal_finalization_take_registry_cleanup` with one. -/
def takeQueuedCleanup (s : Finalizations T) (registry : Option RegistryRef) :
    Option (Option (Cleanup T) × Finalizations T) :=
  takeQueuedCells registry s.cells.length none s.finalizationHead s

/-! ## Collection -/

/-- What tracing marked. -/
structure Marking (T : Type) where
  cell : CellRef → Bool
  registry : RegistryRef → Bool
  object : T → Bool

/-- The marks follow the roots and the strong edges of the finalization records: a registry
leads to its cells, and a cell to both its neighbours and to its registry. -/
structure Marking.Closed (m : Marking T) (s : Finalizations T) : Prop where
  head : ∀ c, s.finalizationHead = some c → m.cell c = true
  tail : ∀ c, s.finalizationTail = some c → m.cell c = true
  cellHead : ∀ r c, m.registry r = true → (s.registry r).cellHead = some c → m.cell c = true
  cellTail : ∀ r c, m.registry r = true → (s.registry r).cellTail = some c → m.cell c = true
  next : ∀ c d, m.cell c = true → (s.cell c).next = some d → m.cell d = true
  queueNext : ∀ c d, m.cell c = true → (s.cell c).queueNext = some d → m.cell d = true
  cellRegistry : ∀ c, m.cell c = true → m.registry (s.cell c).registry = true

/-- The part of `clear_dead_weak_edges` for one cell. -/
def clearDeadToken (m : Marking T) (s : Finalizations T) (c : CellRef) : Finalizations T :=
  if m.cell c = true ∧ (s.cell c).unregisterToken.isDead m.object = true then
    s.setCell c fun cell => { cell with unregisterToken := .undefined }
  else s

/-- Whether `schedule_finalization` schedules a cell. -/
def isCandidate (m : Marking T) (s : Finalizations T) (c : CellRef) : Bool :=
  m.cell c && !((s.cell c).processed || (s.cell c).queued) && (s.cell c).target.isDead m.object

/-- Inserts a cell into the candidates, which are sorted by registration order. -/
def insertCandidate (s : Finalizations T) (c : CellRef) : List CellRef → List CellRef
  | [] => [c]
  | d :: candidates =>
    if (s.cell d).registrationOrder < (s.cell c).registrationOrder then
      d :: insertCandidate s c candidates
    else c :: d :: candidates

/-- The cells to schedule, in registration order. -/
def scheduleCandidates (m : Marking T) (s : Finalizations T) : List CellRef :=
  s.cells.foldl
    (fun candidates c =>
      if isCandidate m s c then insertCandidate s c candidates else candidates) []

/-- Appends one cell to the cleanup queue. -/
def enqueueCandidate (s : Finalizations T) (c : CellRef) : Finalizations T :=
  let s := s.setCell c fun cell =>
    { cell with target := .undefined, queueNext := none, queued := true }
  let s := match s.finalizationTail with
    | some tail => s.setCell tail fun cell => { cell with queueNext := some c }
    | none => { s with finalizationHead := some c }
  { s with
    finalizationTail := some c
    finalizationPendingCount := s.finalizationPendingCount + 1 }

/-- `schedule_finalization`. -/
def scheduleFinalization (m : Marking T) (s : Finalizations T) : Finalizations T :=
  (scheduleCandidates m s).foldl enqueueCandidate s

/-- Unlinks a consumed cell from its registry's chain: `last` is the cell kept before it. -/
def unchainCell (r : RegistryRef) (s : Finalizations T) (last : Option CellRef) (c : CellRef) :
    Finalizations T :=
  let next := (s.cell c).next
  let s := match last with
    | some p => s.setCell p fun cell => { cell with next := next }
    | none => s.setRegistry r fun registry => { registry with cellHead := next }
  s.setCell c fun cell => { cell with next := none }

/-- Drops the mark of an unlinked cell that is not on the cleanup queue. -/
def Marking.dropCell (m : Marking T) (cell : FinalizationCell T) (c : CellRef) : Marking T :=
  if cell.queued then m else { m with cell := Function.update m.cell c false }

/-- The walk of `compact_finalization_registries` over one registry's chain, behind the cell
`last` that it kept. It drops the marks of the consumed cells. -/
def compactCells (r : RegistryRef) :
    ℕ → Option CellRef → Option CellRef → Marking T × Finalizations T →
      Option (Marking T × Finalizations T)
  | _, last, none, (m, s) =>
    some (m, s.setRegistry r fun registry => { registry with cellTail := last })
  | 0, _, some _, _ => none
  | fuel + 1, last, some c, (m, s) =>
    let cell := s.cell c
    if cell.processed then
      compactCells r fuel last cell.next (m.dropCell cell c, unchainCell r s last c)
    else
      compactCells r fuel (some c) cell.next (m, s)

/-- `compact_finalization_registries`. -/
def compactFinalizationRegistries :
    List RegistryRef → Marking T × Finalizations T → Option (Marking T × Finalizations T)
  | [], ms => some ms
  | r :: registries, (m, s) =>
    if m.registry r then
      match compactCells r s.cells.length none (s.registry r).cellHead (m, s) with
      | none => none
      | some ms => compactFinalizationRegistries registries ms
    else compactFinalizationRegistries registries (m, s)

/-- What `oseo_collect` does to the finalization records, once tracing is done. -/
def finalizationCollect (m : Marking T) (s : Finalizations T) : Option (Finalizations T) :=
  let s := s.cells.foldl (clearDeadToken m) s
  let s := scheduleFinalization m s
  (compactFinalizationRegistries s.registries (m, s)).map fun (m, s) =>
    { s with
      cells := s.cells.filter m.cell
      registries := s.registries.filter m.registry }

/-! ## The invariant of the finalization records

Each registration is watched until a collection finds its target dead, is then due for a
cleanup, and is consumed by the cleanup, by an unregistration or by the death of its registry.
Registrations are numbered in the order they were made.

* `FinalizationEvent` is one operation with its result;
* `FinalizationHistory` is what a sequence of operations says of every registration;
* `TakeAnswers` says which cleanup a request for one has to give.

Every registry's chain holds its open registrations in order, the cleanup queue holds the due
ones in the order of their cleanups, and the pending counter counts these. Consumed cells stay
on the chain until a collection, and on the queue until a cleanup is taken.
-/

open Oseo.Library

/-- What became of a registration. `due` has the number of the collection that found the
target dead. -/
inductive RegistrationStatus (T : Type)
  | absent
  | watching (registry : RegistryRef) (target : T) (holdings unregisterToken : HeapValue T)
  | due (batch : ℕ) (registry : RegistryRef) (holdings unregisterToken : HeapValue T)
  | consumed

/-- One operation with its result. -/
inductive FinalizationEvent (T : Type)
  | create (registry : RegistryRef)
  | register (registry : RegistryRef) (target : T) (holdings unregisterToken : HeapValue T)
  | rejected (error : String)
  | unregister (registry : Option RegistryRef) (unregisterToken : HeapValue T) (removed : Bool)
  | collect (m : Marking T)
  | take (registry : Option RegistryRef) (cleanup : Option (Cleanup T))

/-- The number of registrations and of collections so far, and every registration's status. -/
structure FinalizationHistory (T : Type) where
  registrations : ℕ
  collections : ℕ
  status : ℕ → RegistrationStatus T

/-- Neither absent nor consumed. -/
def RegistrationStatus.isOpen : RegistrationStatus T → Bool
  | .watching .. => true
  | .due .. => true
  | _ => false

/-- The collection that made a registration due. -/
def RegistrationStatus.batch : RegistrationStatus T → ℕ
  | .due batch .. => batch
  | _ => 0

/-- Whether an open registration is one of a registry's with a token. -/
def RegistrationStatus.hasToken [DecidableEq T] (r : RegistryRef) (token : HeapValue T) :
    RegistrationStatus T → Bool
  | .watching registry _ _ unregisterToken => registry = r ∧ unregisterToken = token
  | .due _ registry _ unregisterToken => registry = r ∧ unregisterToken = token
  | _ => false

/-- A token without its object, if that is dead. -/
def HeapValue.clearDead (marked : T → Bool) (value : HeapValue T) : HeapValue T :=
  if value.isDead marked then .undefined else value

/-- Forgets a dead token. -/
def RegistrationStatus.clearToken (m : Marking T) : RegistrationStatus T → RegistrationStatus T
  | .watching registry target holdings token =>
    .watching registry target holdings (token.clearDead m.object)
  | .due batch registry holdings token => .due batch registry holdings (token.clearDead m.object)
  | status => status

/-- Makes a registration due whose target is dead. -/
def RegistrationStatus.schedule (m : Marking T) (batch : ℕ) :
    RegistrationStatus T → RegistrationStatus T
  | .watching registry target holdings token =>
    if m.object target then .watching registry target holdings token
    else .due batch registry holdings token
  | status => status

/-- Consumes a registration whose registry is dead. -/
def RegistrationStatus.dropRegistry (m : Marking T) : RegistrationStatus T → RegistrationStatus T
  | .watching registry target holdings token =>
    if m.registry registry then .watching registry target holdings token else .consumed
  | .due batch registry holdings token =>
    if m.registry registry then .due batch registry holdings token else .consumed
  | status => status

/-- A collection, for one registration. -/
def RegistrationStatus.collect (m : Marking T) (batch : ℕ) (status : RegistrationStatus T) :
    RegistrationStatus T :=
  ((status.dropRegistry m).clearToken m).schedule m batch

/-- One operation. -/
def historyStep [DecidableEq T] (h : FinalizationHistory T) :
    FinalizationEvent T → FinalizationHistory T
  | .register registry target holdings token =>
    { h with
      registrations := h.registrations + 1
      status :=
        Function.update h.status h.registrations (.watching registry target holdings token) }
  | .unregister (some r) token _ =>
    if token.isHeap then
      { h with
        status := fun i => if (h.status i).hasToken r token then .consumed else h.status i }
    else h
  | .collect m =>
    { h with
      collections := h.collections + 1
      status := fun i => (h.status i).collect m h.collections }
  | .take _ (some cleanup) =>
    { h with status := Function.update h.status cleanup.registrationOrder .consumed }
  | _ => h

/-- What a sequence of operations says of every registration. -/
def historyAfter [DecidableEq T] (events : List (FinalizationEvent T)) : FinalizationHistory T :=
  events.foldl historyStep ⟨0, 0, fun _ => .absent⟩

/-- The order of cleanups: by collection, and then by registration. -/
def FinalizationHistory.Before (h : FinalizationHistory T) (i j : ℕ) : Prop :=
  (h.status i).batch < (h.status j).batch ∨ (h.status i).batch = (h.status j).batch ∧ i < j

/-- Whether a registration is due, and is one of the registry's if one is given. -/
def FinalizationHistory.IsDue (h : FinalizationHistory T) (registry : Option RegistryRef)
    (i : ℕ) : Prop :=
  ∃ batch r holdings token,
    h.status i = .due batch r holdings token ∧ (registry = none ∨ registry = some r)

/-- The cleanup that a request has to give: the first that is due. -/
def TakeAnswers (h : FinalizationHistory T) (registry : Option RegistryRef) :
    Option (Cleanup T) → Prop
  | none => ∀ i, ¬h.IsDue registry i
  | some cleanup =>
    h.IsDue registry cleanup.registrationOrder ∧
      (∃ batch token,
        h.status cleanup.registrationOrder =
          .due batch cleanup.registry cleanup.holdings token) ∧
      ∀ j, h.IsDue registry j → j = cleanup.registrationOrder ∨
        h.Before cleanup.registrationOrder j

/-- The result an operation has to have. -/
def FinalizationAnswers [DecidableEq T] (h : FinalizationHistory T) :
    FinalizationEvent T → Prop
  | .unregister registry token removed =>
    removed = true ↔ token.isHeap = true ∧
      ∃ r, registry = some r ∧ ∃ i, (h.status i).hasToken r token = true
  | .take registry cleanup => TakeAnswers h registry cleanup
  | _ => True

/-! ## The invariant -/

variable {s s' : Finalizations T} {h h' : FinalizationHistory T}
  {chains : RegistryRef → List CellRef} {queue : List CellRef}

/-- What a cell says of its registration. -/
def FinalizationCell.HasStatus (cell : FinalizationCell T) (status : RegistrationStatus T) :
    Prop :=
  if cell.processed then status = .consumed
  else if cell.queued then
    ∃ batch, status = .due batch cell.registry cell.holdings cell.unregisterToken
  else
    ∃ target, cell.target = .heap target ∧
      status = .watching cell.registry target cell.holdings cell.unregisterToken

/-- The order of a cell's registration. -/
abbrev Finalizations.order (s : Finalizations T) (c : CellRef) : ℕ :=
  (s.cell c).registrationOrder

/-- The cells of a chain or a queue that no cleanup or unregistration consumed. -/
abbrev Finalizations.isLive (s : Finalizations T) (c : CellRef) : Bool := !(s.cell c).processed

/-- The records agree with the history. -/
structure Finalizations.Tracks (s : Finalizations T) (h : FinalizationHistory T)
    (chains : RegistryRef → List CellRef) (queue : List CellRef) : Prop where
  registrations : s.nextFinalizationOrder = h.registrations
  cellsNodup : s.cells.Nodup
  orderInj : ∀ c ∈ s.cells, ∀ d ∈ s.cells, s.order c = s.order d → c = d
  orderLt : ∀ c ∈ s.cells, s.order c < h.registrations
  status : ∀ c ∈ s.cells, (s.cell c).HasStatus (h.status (s.order c))
  tracked : ∀ i, (h.status i).isOpen = true →
    ∃ c ∈ s.cells, s.order c = i ∧ s.isLive c = true
  absent : ∀ i, h.registrations ≤ i → h.status i = .absent
  batch : ∀ i b r holdings token, h.status i = .due b r holdings token → b < h.collections
  owner : ∀ c ∈ s.cells, (s.cell c).registry ∈ s.registries
  chained : ∀ c ∈ s.cells, s.isLive c = true → c ∈ chains (s.cell c).registry
  chain : ∀ r ∈ s.registries,
    Chain (fun c => (s.cell c).next) (s.registry r).cellHead (chains r) none
  chainTail : ∀ r ∈ s.registries, (s.registry r).cellTail = lastOr none (chains r)
  chainMem : ∀ r ∈ s.registries, ∀ c ∈ chains r, c ∈ s.cells ∧ (s.cell c).registry = r
  chainSorted : ∀ r ∈ s.registries, (chains r).Pairwise fun c d => s.order c < s.order d
  queueChain : Chain (fun c => (s.cell c).queueNext) s.finalizationHead queue none
  queueTail : s.finalizationTail = lastOr none queue
  queueNodup : queue.Nodup
  queueMem : ∀ c ∈ queue, c ∈ s.cells ∧ (s.cell c).queued = true
  queuedMem : ∀ c ∈ s.cells, (s.cell c).queued = true → c ∈ queue
  queueSorted : queue.Pairwise fun c d =>
    s.isLive c = true → s.isLive d = true → h.Before (s.order c) (s.order d)
  pending : s.finalizationPendingCount = queue.countP s.isLive

/-! ## What a status says -/

lemma FinalizationCell.HasStatus.due {cell : FinalizationCell T} {b : ℕ} {r : RegistryRef}
    {holdings token : HeapValue T} (hs : cell.HasStatus (.due b r holdings token)) :
    cell.processed = false ∧ cell.queued = true ∧ cell.registry = r ∧ cell.holdings = holdings ∧
      cell.unregisterToken = token := by
  unfold FinalizationCell.HasStatus at hs
  split at hs
  · cases hs
  · next hp =>
    split at hs
    · next hq =>
      obtain ⟨b, heq⟩ := hs
      cases heq
      exact ⟨Bool.eq_false_iff.mpr hp, hq, rfl, rfl, rfl⟩
    · obtain ⟨t, -, heq⟩ := hs
      cases heq

/-- A live cell on the queue is due. -/
lemma FinalizationCell.HasStatus.of_queued {cell : FinalizationCell T}
    {status : RegistrationStatus T} (hs : cell.HasStatus status) (hp : cell.processed = false)
    (hq : cell.queued = true) :
    ∃ batch, status = .due batch cell.registry cell.holdings cell.unregisterToken := by
  unfold FinalizationCell.HasStatus at hs
  rw [if_neg (by simp [hp]), if_pos hq] at hs
  exact hs

/-- An open registration's cell has its registry and its token. -/
lemma FinalizationCell.HasStatus.hasToken [DecidableEq T] {cell : FinalizationCell T}
    {status : RegistrationStatus T} (hs : cell.HasStatus status) (r : RegistryRef)
    (token : HeapValue T) :
    status.hasToken r token = true ↔
      cell.processed = false ∧ cell.registry = r ∧ cell.unregisterToken = token := by
  unfold FinalizationCell.HasStatus at hs
  split at hs
  · next hp =>
    rw [hs, hp]
    simp [RegistrationStatus.hasToken]
  · next hp =>
    rw [Bool.eq_false_iff.mpr hp]
    split at hs
    · obtain ⟨b, rfl⟩ := hs
      simp [RegistrationStatus.hasToken]
    · obtain ⟨t, -, rfl⟩ := hs
      simp [RegistrationStatus.hasToken]

lemma RegistrationStatus.isOpen_of_hasToken [DecidableEq T] {status : RegistrationStatus T}
    {r : RegistryRef} {token : HeapValue T} (hs : status.hasToken r token = true) :
    status.isOpen = true := by
  cases status <;> first | rfl | cases hs

/-- The registrations due are the live cells of the queue. -/
lemma Finalizations.Tracks.isDue (ht : s.Tracks h chains queue) (registry : Option RegistryRef)
    (i : ℕ) : h.IsDue registry i ↔ ∃ c ∈ queue, s.order c = i ∧ s.isLive c = true ∧
      (registry = none ∨ registry = some (s.cell c).registry) := by
  constructor
  · intro ⟨b, r, holdings, token, hdue, hr⟩
    obtain ⟨c, hc, hi, hlive⟩ := ht.tracked i (by rw [hdue]; rfl)
    have hs := ht.status c hc
    rw [hi, hdue] at hs
    obtain ⟨-, hq, hreg, -, -⟩ := hs.due
    exact ⟨c, ht.queuedMem c hc hq, hi, hlive, by rw [hreg]; exact hr⟩
  · intro ⟨c, hc, hi, hlive, hr⟩
    obtain ⟨hmem, hq⟩ := ht.queueMem c hc
    have hs := ht.status c hmem
    obtain ⟨b, hdue⟩ := hs.of_queued (by simpa using hlive) hq
    rw [hi] at hdue
    exact ⟨b, _, _, _, hdue, hr⟩

/-! ## Changes that keep the links -/

/-- Two states with the same records, linked and ordered in the same way. -/
structure SameLinks (s s' : Finalizations T) : Prop where
  cells : s'.cells = s.cells
  registries : s'.registries = s.registries
  registry : s'.registry = s.registry
  head : s'.finalizationHead = s.finalizationHead
  tail : s'.finalizationTail = s.finalizationTail
  nextOrder : s'.nextFinalizationOrder = s.nextFinalizationOrder
  next : ∀ c, (s'.cell c).next = (s.cell c).next
  queueNext : ∀ c, (s'.cell c).queueNext = (s.cell c).queueNext
  owner : ∀ c, (s'.cell c).registry = (s.cell c).registry
  order : ∀ c, s'.order c = s.order c
  queued : ∀ c, (s'.cell c).queued = (s.cell c).queued

/-- Writing a cell without its links. -/
lemma setCell_sameLinks (s : Finalizations T) {c : CellRef}
    {f : FinalizationCell T → FinalizationCell T}
    (hnext : (f (s.cell c)).next = (s.cell c).next)
    (hqueueNext : (f (s.cell c)).queueNext = (s.cell c).queueNext)
    (howner : (f (s.cell c)).registry = (s.cell c).registry)
    (horder : (f (s.cell c)).registrationOrder = (s.cell c).registrationOrder)
    (hqueued : (f (s.cell c)).queued = (s.cell c).queued) (n : ℕ) :
    SameLinks s { s.setCell c f with finalizationPendingCount := n } := by
  have hcell : ∀ d, (s.setCell c f).cell d = if d = c then f (s.cell c) else s.cell d :=
    fun d => Function.update_apply ..
  have hfield {α : Type} (field : FinalizationCell T → α)
      (hsame : field (f (s.cell c)) = field (s.cell c)) (d : CellRef) :
      field ((s.setCell c f).cell d) = field (s.cell d) := by
    rw [hcell]
    split
    · next hdc => rw [hdc, hsame]
    · rfl
  constructor
  case next => exact hfield (·.next) hnext
  case queueNext => exact hfield (·.queueNext) hqueueNext
  case owner => exact hfield (·.registry) howner
  case order => exact hfield (·.registrationOrder) horder
  case queued => exact hfield (·.queued) hqueued
  all_goals rfl

/-- Two states with the same cells on the same chains. -/
structure SameChains (s s' : Finalizations T) : Prop where
  cells : s'.cells = s.cells
  registries : s'.registries = s.registries
  registry : s'.registry = s.registry
  nextOrder : s'.nextFinalizationOrder = s.nextFinalizationOrder
  next : ∀ c, (s'.cell c).next = (s.cell c).next
  owner : ∀ c, (s'.cell c).registry = (s.cell c).registry
  order : ∀ c, s'.order c = s.order c

/-- A change that keeps the chains keeps the invariant, when the new statuses and the new queue
fit. -/
lemma Finalizations.Tracks.requeue {queue' : List CellRef} (ht : s.Tracks h chains queue)
    (hs : SameChains s s') (hregistrations : h'.registrations = h.registrations)
    (hlive : ∀ c, s'.isLive c = true → s.isLive c = true)
    (hstatus : ∀ c ∈ s.cells, (s'.cell c).HasStatus (h'.status (s.order c)))
    (htracked : ∀ i, (h'.status i).isOpen = true →
      ∃ c ∈ s.cells, s.order c = i ∧ s'.isLive c = true)
    (habsent : ∀ i, h.registrations ≤ i → h'.status i = .absent)
    (hbatch : ∀ i b r holdings token, h'.status i = .due b r holdings token → b < h'.collections)
    (hchain : Chain (fun c => (s'.cell c).queueNext) s'.finalizationHead queue' none)
    (htail : s'.finalizationTail = lastOr none queue') (hnodup : queue'.Nodup)
    (hmem : ∀ c ∈ queue', c ∈ s.cells ∧ (s'.cell c).queued = true)
    (hqueued : ∀ c ∈ s.cells, (s'.cell c).queued = true → c ∈ queue')
    (hsorted : queue'.Pairwise fun c d =>
      s'.isLive c = true → s'.isLive d = true → h'.Before (s.order c) (s.order d))
    (hpending : s'.finalizationPendingCount = queue'.countP s'.isLive) :
    s'.Tracks h' chains queue' where
  registrations := by rw [hs.nextOrder, hregistrations]; exact ht.registrations
  cellsNodup := by rw [hs.cells]; exact ht.cellsNodup
  orderInj := fun c hc d hd heq => by
    rw [hs.cells] at hc hd
    rw [hs.order, hs.order] at heq
    exact ht.orderInj c hc d hd heq
  orderLt := fun c hc => by
    rw [hs.cells] at hc
    rw [hs.order, hregistrations]
    exact ht.orderLt c hc
  status := fun c hc => by
    rw [hs.cells] at hc
    rw [hs.order]
    exact hstatus c hc
  tracked := fun i hi => by
    obtain ⟨c, hc, hci, hclive⟩ := htracked i hi
    exact ⟨c, hs.cells ▸ hc, by rw [hs.order, hci], hclive⟩
  absent := fun i hi => habsent i (hregistrations ▸ hi)
  batch := hbatch
  owner := fun c hc => by
    rw [hs.cells] at hc
    rw [hs.owner, hs.registries]
    exact ht.owner c hc
  chained := fun c hc hclive => by
    rw [hs.cells] at hc
    rw [hs.owner]
    exact ht.chained c hc (hlive c hclive)
  chain := fun r hr => by
    rw [hs.registries] at hr
    rw [hs.registry]
    exact (ht.chain r hr).congr fun c _ => hs.next c
  chainTail := fun r hr => by
    rw [hs.registries] at hr
    rw [hs.registry]
    exact ht.chainTail r hr
  chainMem := fun r hr c hc => by
    rw [hs.registries] at hr
    rw [hs.cells, hs.owner]
    exact ht.chainMem r hr c hc
  chainSorted := fun r hr => by
    rw [hs.registries] at hr
    simpa only [hs.order] using ht.chainSorted r hr
  queueChain := hchain
  queueTail := htail
  queueNodup := hnodup
  queueMem := fun c hc => by
    rw [hs.cells]
    exact hmem c hc
  queuedMem := fun c hc hq => by
    rw [hs.cells] at hc
    exact hqueued c hc hq
  queueSorted := by simpa only [hs.order] using hsorted
  pending := hpending

/-- A change that keeps the links keeps the invariant, when the new statuses fit. -/
lemma Finalizations.Tracks.relabel (ht : s.Tracks h chains queue) (hs : SameLinks s s')
    (hregistrations : h'.registrations = h.registrations)
    (hlive : ∀ c, s'.isLive c = true → s.isLive c = true)
    (hstatus : ∀ c ∈ s.cells, (s'.cell c).HasStatus (h'.status (s.order c)))
    (htracked : ∀ i, (h'.status i).isOpen = true →
      ∃ c ∈ s.cells, s.order c = i ∧ s'.isLive c = true)
    (habsent : ∀ i, h.registrations ≤ i → h'.status i = .absent)
    (hbatch : ∀ i b r holdings token, h'.status i = .due b r holdings token → b < h'.collections)
    (hsorted : ∀ c ∈ queue, ∀ d ∈ queue, s'.isLive c = true → s'.isLive d = true →
      h.Before (s.order c) (s.order d) → h'.Before (s.order c) (s.order d))
    (hpending : s'.finalizationPendingCount = queue.countP s'.isLive) :
    s'.Tracks h' chains queue := by
  refine ht.requeue ⟨hs.cells, hs.registries, hs.registry, hs.nextOrder, hs.next, hs.owner, hs.order⟩
    hregistrations hlive hstatus htracked habsent hbatch ?_ ?_ ht.queueNodup ?_ ?_ ?_ hpending
  · rw [hs.head]
    exact ht.queueChain.congr fun c _ => hs.queueNext c
  · rw [hs.tail, ht.queueTail]
  · simpa only [hs.queued] using ht.queueMem
  · simpa only [hs.queued] using ht.queuedMem
  · exact ht.queueSorted.imp_of_mem fun {c d} hc hd hbefore hclive hdlive =>
      hsorted c hc d hd hclive hdlive (hbefore (hlive c hclive) (hlive d hdlive))

/-! ## Consuming a registration -/

/-- What consuming a cell changes: nothing that links or orders the records. -/
structure Consumes (s s' : Finalizations T) (c : CellRef) : Prop extends SameLinks s s' where
  pending : s'.finalizationPendingCount =
    if (s.cell c).queued then s.finalizationPendingCount - 1 else s.finalizationPendingCount
  processed : (s'.cell c).processed = true
  others : ∀ d, d ≠ c → s'.cell d = s.cell d

/-- The history in which one registration is consumed. -/
def FinalizationHistory.consume (h : FinalizationHistory T) (i : ℕ) : FinalizationHistory T :=
  { h with status := Function.update h.status i .consumed }

@[simp] lemma FinalizationHistory.consume_self (h : FinalizationHistory T) (i : ℕ) :
    (h.consume i).status i = .consumed :=
  Function.update_self i _ h.status

lemma FinalizationHistory.consume_of_ne (h : FinalizationHistory T) {i j : ℕ} (hij : i ≠ j) :
    (h.consume j).status i = h.status i :=
  Function.update_of_ne hij _ _

lemma Consumes.isLive {c : CellRef} (hc : Consumes s s' c) (d : CellRef) :
    s'.isLive d = true ↔ s.isLive d = true ∧ d ≠ c := by
  by_cases hdc : d = c
  · rw [hdc, Finalizations.isLive, hc.processed]
    simp
  · rw [Finalizations.isLive, hc.others d hdc]
    simp [hdc]

/-- One occurrence less is counted. -/
lemma countP_consume {l : List CellRef} {p q : CellRef → Bool} {c : CellRef} (hnodup : l.Nodup)
    (hq : ∀ d, q d = true ↔ p d = true ∧ d ≠ c) (hp : p c = true) :
    l.countP q = if c ∈ l then l.countP p - 1 else l.countP p := by
  have hperm : l.countP p = l.countP q + if c ∈ l then 1 else 0 := by
    induction l with
    | nil => rfl
    | cons d l ih =>
      rw [List.nodup_cons] at hnodup
      rw [List.countP_cons, List.countP_cons, ih hnodup.2]
      by_cases hdc : d = c
      · have hqc : q d = false := by
          rw [Bool.eq_false_iff]
          intro hqd
          exact ((hq d).mp hqd).2 hdc
        rw [hqc, hdc, hp, if_neg (hdc ▸ hnodup.1)]
        simp
      · have hqd : q d = p d := Bool.eq_iff_iff.mpr (by rw [hq d]; simp [hdc])
        have hmem : c ∈ d :: l ↔ c ∈ l := by
          rw [List.mem_cons]
          exact ⟨fun hc => hc.resolve_left fun hcd => hdc hcd.symm, Or.inr⟩
        rw [hqd, if_congr hmem rfl rfl]
        omega
  rw [hperm]
  split <;> omega

/-- Consuming a live cell consumes its registration. -/
theorem Finalizations.Tracks.consume {c : CellRef} (ht : s.Tracks h chains queue)
    (hmem : c ∈ s.cells) (hlive : s.isLive c = true) (hc : Consumes s s' c) :
    s'.Tracks (h.consume (s.order c)) chains queue := by
  have hne : ∀ d ∈ s.cells, d ≠ c → s.order d ≠ s.order c := fun d hd hdc heq =>
    hdc (ht.orderInj d hd c hmem heq)
  apply Finalizations.Tracks.relabel ht hc.toSameLinks
  case hregistrations => rfl
  case hlive => exact fun d hd => ((hc.isLive d).mp hd).1
  case hstatus =>
    intro d hd
    by_cases hdc : d = c
    · rw [hdc, FinalizationHistory.consume_self]
      unfold FinalizationCell.HasStatus
      rw [if_pos hc.processed]
    · rw [h.consume_of_ne (hne d hd hdc), hc.others d hdc]
      exact ht.status d hd
  case htracked =>
    intro i hi
    by_cases hic : i = s.order c
    · rw [hic, FinalizationHistory.consume_self] at hi
      cases hi
    · rw [h.consume_of_ne hic] at hi
      obtain ⟨d, hd, hdi, hdlive⟩ := ht.tracked i hi
      refine ⟨d, hd, hdi, ?_⟩
      rw [hc.isLive]
      exact ⟨hdlive, fun hdc => hic (by rw [← hdi, hdc])⟩
  case habsent =>
    intro i hi
    have hlt := ht.orderLt c hmem
    rw [h.consume_of_ne (by omega)]
    exact ht.absent i hi
  case hbatch =>
    intro i b r holdings token hi
    by_cases hic : i = s.order c
    · rw [hic, FinalizationHistory.consume_self] at hi
      cases hi
    · rw [h.consume_of_ne hic] at hi
      exact ht.batch i b r holdings token hi
  case hsorted =>
    intro d hd e he hdlive helive hbefore
    rw [hc.isLive] at hdlive helive
    unfold FinalizationHistory.Before
    rw [h.consume_of_ne (hne d (ht.queueMem d hd).1 hdlive.2),
      h.consume_of_ne (hne e (ht.queueMem e he).1 helive.2)]
    exact hbefore
  case hpending =>
    rw [hc.pending, countP_consume ht.queueNodup hc.isLive hlive, ← ht.pending]
    by_cases hq : (s.cell c).queued = true
    · rw [if_pos hq, if_pos (ht.queuedMem c hmem hq)]
    · rw [if_neg hq, if_neg fun hcq => hq (ht.queueMem c hcq).2]

end Oseo.RuntimeMemory
