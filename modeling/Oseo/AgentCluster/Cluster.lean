import Mathlib.Data.List.Basic

/-!
# The agent cluster

The turn, the ready queue and the waiter list of `runtime_agent.c`. A step is one thread's work under
the lock of the cluster, or the end of its clock wait. A turn operation is two steps or more: what
it does up to its wait, and the rounds of the loop in which it awaits the turn.

* Shared blocks (`B`), heap waiters (`V`) and broadcasts (`M`) are of any type;
* an agent and a waiter entry are named by the order of their allocation;
* the inbox of an agent and its resolved entries are lists;
* what an agent's thread does is its `phase`; a thread in its clock wait has its `wakeup`.

`pushed` and `popped` are a history of the ready queue that no function reads.
-/

namespace Oseo.AgentCluster

/-- The address of an agent. -/
abbrev AgentRef := ℕ

/-- The address of an entry of the waiter list. -/
abbrev WaiterRef := ℕ

/-- `AgentState`. -/
inductive AgentState
  | starting
  | ready
  | running
  | blocked
  | finished
deriving DecidableEq

/-- What the thread of an agent does: it has yet to take the lock for the first time, evaluates,
is in its clock wait, is back from it and about to take the lock, has discarded its work, or is
over. A thread that awaits its turn may have a blocking waiter, and has a deadline. -/
inductive Phase
  | starting
  | evaluating
  | waiting (waiter : Option WaiterRef) (deadline : ℕ)
  | checking (waiter : Option WaiterRef) (deadline : ℕ)
  | ending
  | ended

/-- `AgentWaiter`. -/
structure AgentWaiter (B V : Type) where
  next : Option WaiterRef
  agent : AgentRef
  block : B
  byteIndex : ℕ
  waiter : Option V
  asynchronous : Bool
  listed : Bool
  notified : Bool

/-- `Agent`, with what its context and its clock adapter hold of it. -/
structure Agent (V M : Type) where
  readyNext : Option AgentRef
  hasContext : Bool
  state : AgentState
  hasDeadline : Bool
  wakesOnWork : Bool
  listedAsync : ℕ
  resolved : List WaiterRef
  broadcasts : List M
  /-- A broadcast callback is registered. -/
  receives : Bool
  /-- The entry of a heap waiter. -/
  record : V → Option WaiterRef
  /-- A wakeup that no wait has taken yet. -/
  wakeup : Bool
  phase : Phase

/-- `AgentCluster`. -/
structure Cluster (B V M : Type) where
  agent : AgentRef → Agent V M
  waiter : WaiterRef → AgentWaiter B V
  main : AgentRef
  agents : List AgentRef
  running : Option AgentRef
  readyHead : Option AgentRef
  readyTail : Option AgentRef
  waitersHead : Option WaiterRef
  waitersTail : Option WaiterRef
  broadcastRemaining : ℕ
  nextAgent : AgentRef
  nextWaiter : WaiterRef
  exited : Bool
  pushed : List AgentRef
  popped : List AgentRef

section
variable {B V M : Type}

/-- Writes one agent. -/
@[simps -fullyApplied waiter main agents running readyHead readyTail waitersHead waitersTail
  nextAgent nextWaiter exited pushed popped]
def Cluster.setAgent (c : Cluster B V M) (a : AgentRef) (f : Agent V M → Agent V M) :
    Cluster B V M :=
  { c with agent := Function.update c.agent a (f (c.agent a)) }

/-- Writes one waiter entry. -/
def Cluster.setWaiter (c : Cluster B V M) (w : WaiterRef)
    (f : AgentWaiter B V → AgentWaiter B V) : Cluster B V M :=
  { c with waiter := Function.update c.waiter w (f (c.waiter w)) }

/-! ## The turn -/

/-- `agent_signal`. -/
def agentSignal (c : Cluster B V M) (a : AgentRef) : Cluster B V M :=
  if (c.agent a).hasContext then c.setAgent a fun agent => { agent with wakeup := true } else c

/-- `ready_push`. -/
def readyPush (c : Cluster B V M) (a : AgentRef) : Cluster B V M :=
  let c := c.setAgent a fun agent => { agent with readyNext := none }
  let c :=
    match c.readyTail with
    | none => { c with readyHead := some a }
    | some tail => c.setAgent tail fun agent => { agent with readyNext := some a }
  { c with readyTail := some a, pushed := c.pushed ++ [a] }

/-- `ready_pop`. -/
def readyPop (c : Cluster B V M) : Option AgentRef × Cluster B V M :=
  match c.readyHead with
  | none => (none, c)
  | some a =>
    let head := (c.agent a).readyNext
    let tail := if head = none then none else c.readyTail
    let c := { c with readyHead := head, readyTail := tail, popped := c.popped ++ [a] }
    (some a, c.setAgent a fun agent => { agent with readyNext := none })

/-- `cluster_dispatch`. -/
def clusterDispatch (c : Cluster B V M) : Cluster B V M :=
  match c.running with
  | some _ => c
  | none =>
    match readyPop c with
    | (none, c) => c
    | (some a, c) =>
      let c := c.setAgent a fun agent => { agent with state := .running }
      agentSignal { c with running := some a } a

/-- `agent_make_ready`. -/
def agentMakeReady (c : Cluster B V M) (a : AgentRef) : Cluster B V M :=
  if (c.agent a).state = .blocked then
    let c := c.setAgent a fun agent =>
      { agent with state := .ready, hasDeadline := false, wakesOnWork := false }
    clusterDispatch (readyPush c a)
  else c

/-- `agent_has_work`. -/
def agentHasWork (c : Cluster B V M) (a : AgentRef) : Bool :=
  !(c.agent a).resolved.isEmpty || !(c.agent a).broadcasts.isEmpty && (c.agent a).receives

/-- An agent that can go on by itself. -/
def Agent.progresses (agent : Agent V M) : Bool :=
  agent.state = .starting || agent.state = .ready || agent.state = .running ||
    agent.state = .blocked && agent.hasDeadline

/-- `cluster_other_progresses`. -/
def clusterOtherProgresses (c : Cluster B V M) (self : Option AgentRef) : Bool :=
  (c.main :: c.agents).any fun a => self ≠ some a && (c.agent a).progresses

/-- `cluster_check_progress`. A stall that is reported ends the process. -/
def clusterCheckProgress (c : Cluster B V M) : Cluster B V M :=
  if c.running.isSome || c.readyHead.isSome then c
  else if clusterOtherProgresses c none then c
  else
    let main := c.agent c.main
    if main.state = .finished then c
    else if main.state = .blocked && main.wakesOnWork then agentMakeReady c c.main
    else { c with exited := true }

/-! ## The waiter list -/

/-- The walk to the entry `w`: the entry before it, and `w` unless the list ends first. -/
def waiterWalk (c : Cluster B V M) (w : WaiterRef) :
    ℕ → Option WaiterRef → Option WaiterRef → Option (Option WaiterRef × Option WaiterRef)
  | _, previous, none => some (previous, none)
  | fuel, previous, some current =>
    if current = w then some (previous, some current)
    else
      match fuel with
      | 0 => none
      | fuel + 1 => waiterWalk c w fuel (some current) (c.waiter current).next

/-- Writes through a link: the head of the list, or the `next` of an entry. -/
def Cluster.setLink (c : Cluster B V M) (previous target : Option WaiterRef) : Cluster B V M :=
  match previous with
  | none => { c with waitersHead := target }
  | some p => c.setWaiter p fun entry => { entry with next := target }

/-- `waiter_link`. -/
def waiterLink (c : Cluster B V M) (w : WaiterRef) : Cluster B V M :=
  let c := c.setWaiter w fun entry => { entry with next := none }
  let c := c.setLink c.waitersTail (some w)
  { c with waitersTail := some w }.setWaiter w fun entry => { entry with listed := true }

/-- `waiter_unlink`. -/
def waiterUnlink (c : Cluster B V M) (w : WaiterRef) : Option (Cluster B V M) :=
  match waiterWalk c w c.nextWaiter none c.waitersHead with
  | none => none
  | some (_, none) => some c
  | some (previous, some _) =>
    let c := c.setLink previous (c.waiter w).next
    let tail := if c.waitersTail = some w then previous else c.waitersTail
    some ({ c with waitersTail := tail }.setWaiter w fun entry =>
      { entry with next := none, listed := false })

/-- The unlinking in `agent_await_turn`. The entry is on the list there: the loop has no other
end. -/
def unlinkTimedOut (c : Cluster B V M) (w : WaiterRef) : Option (Cluster B V M) :=
  match waiterWalk c w c.nextWaiter none c.waitersHead with
  | some (previous, some _) =>
    let c := c.setLink previous (c.waiter w).next
    let tail := if c.waitersTail = some w then previous else c.waitersTail
    some ({ c with waitersTail := tail }.setWaiter w fun entry => { entry with listed := false })
  | _ => none

/-! ## Awaiting a turn -/

/-- `agent_block`, up to the wait for the next turn. -/
def agentBlock (c : Cluster B V M) (self : AgentRef) (hasDeadline : Bool) (deadline : ℕ)
    (wakesOnWork : Bool) (waiter : Option WaiterRef) : Cluster B V M :=
  let c := c.setAgent self fun agent =>
    { agent with
      state := .blocked
      hasDeadline := hasDeadline
      wakesOnWork := wakesOnWork
      phase := .checking waiter deadline }
  let c := clusterDispatch { c with running := none }
  if hasDeadline then c else clusterCheckProgress c

/-- How one round of the loop in `agent_await_turn` ends. -/
inductive Awaited
  | turn
  | timedOut (waiter : Option WaiterRef)
  | waits
  | failed
deriving DecidableEq

/-- One round of the loop in `agent_await_turn`, up to the wait behind it. `now` is missing where
the clock cannot be read. -/
def awaitTurn (c : Cluster B V M) (self : AgentRef) (waiter : Option WaiterRef) (deadline : ℕ)
    (now : Option ℕ) : Option (Awaited × Cluster B V M) :=
  let wait := c.setAgent self fun agent => { agent with phase := .waiting waiter deadline }
  if c.running = some self then some (.turn, c)
  else if (c.agent self).state = .blocked && (c.agent self).hasDeadline then
    match now with
    | none => some (.failed, c)
    | some now =>
      if now ≥ deadline then
        let listed := waiter.filter fun w => (c.waiter w).listed
        match listed with
        | none => some (.timedOut none, agentMakeReady c self)
        | some w => (unlinkTimedOut c w).map fun c => (.timedOut (some w), agentMakeReady c self)
      else some (.waits, wait)
  else some (.waits, wait)

/-- `oseo_internal_agent_yield`, up to the wait for the next turn. -/
def agentYield (c : Cluster B V M) (self : AgentRef) : Cluster B V M :=
  if c.readyHead = none then c
  else
    let c := c.setAgent self fun agent =>
      { agent with state := .ready, phase := .checking none 0 }
    clusterDispatch { readyPush c self with running := none }

/-! ## Waiters -/

/-- Allocates an entry of the waiter list. -/
def Cluster.newWaiter (c : Cluster B V M) (entry : AgentWaiter B V) : Cluster B V M :=
  { c with nextWaiter := c.nextWaiter + 1 }.setWaiter c.nextWaiter fun _ => entry

/-- `oseo_internal_agent_suspend`, up to the wait for the next turn. -/
def agentSuspend (c : Cluster B V M) (self : AgentRef) (block : B) (byteIndex : ℕ)
    (finite : Bool) (deadline : ℕ) : Cluster B V M :=
  let w := c.nextWaiter
  let c := c.newWaiter
    { next := none
      agent := self
      block := block
      byteIndex := byteIndex
      waiter := none
      asynchronous := false
      listed := false
      notified := false }
  agentBlock (waiterLink c w) self finite deadline false (some w)

/-- The end of `oseo_internal_agent_suspend`: whether the waiter was notified. -/
def suspendEnd (c : Cluster B V M) (w : WaiterRef) : Option (Bool × Cluster B V M) :=
  let c := if (c.waiter w).listed then waiterUnlink c w else some c
  c.map fun c => ((c.waiter w).notified, c)

/-- `oseo_internal_agent_list_waiter`. -/
def agentListWaiter [DecidableEq V] (c : Cluster B V M) (self : AgentRef) (waiter : V) (block : B)
    (byteIndex : ℕ) : Cluster B V M :=
  let w := c.nextWaiter
  let c := c.newWaiter
    { next := none
      agent := self
      block := block
      byteIndex := byteIndex
      waiter := some waiter
      asynchronous := true
      listed := false
      notified := false }
  (waiterLink c w).setAgent self fun agent =>
    { agent with
      record := Function.update agent.record waiter (some w)
      listedAsync := agent.listedAsync + 1 }

/-- `oseo_internal_agent_unlist_waiter`: the entry it unlisted. -/
def agentUnlistWaiter [DecidableEq V] (c : Cluster B V M) (self : AgentRef) (waiter : V) :
    Option (Option WaiterRef × Cluster B V M) :=
  match (c.agent self).record waiter with
  | none => some (none, c)
  | some w =>
    if (c.waiter w).listed then
      (waiterUnlink c w).map fun c =>
        (some w, c.setAgent self fun agent =>
          { agent with
            listedAsync := agent.listedAsync - 1
            record := Function.update agent.record waiter none })
    else some (none, c)

/-- The walk of `oseo_internal_agent_notify_one`. -/
def findWaiter [DecidableEq B] (c : Cluster B V M) (block : B) (byteIndex : ℕ) :
    ℕ → Option WaiterRef → Option (Option WaiterRef)
  | _, none => some none
  | fuel, some w =>
    if (c.waiter w).block = block ∧ (c.waiter w).byteIndex = byteIndex then some (some w)
    else
      match fuel with
      | 0 => none
      | fuel + 1 => findWaiter c block byteIndex fuel (c.waiter w).next

/-- `oseo_internal_agent_notify_one`: the entry it notified, and the heap waiter in it when that
is the agent's own. -/
def agentNotifyOne [DecidableEq B] [DecidableEq V] (c : Cluster B V M) (self : AgentRef)
    (block : B) (byteIndex : ℕ) : Option (Option (WaiterRef × Option V) × Cluster B V M) :=
  match findWaiter c block byteIndex c.nextWaiter c.waitersHead with
  | none => none
  | some none => some (none, c)
  | some (some w) =>
    (waiterUnlink c w).map fun c =>
      let c := c.setWaiter w fun entry => { entry with notified := true }
      let entry := c.waiter w
      let owner := entry.agent
      if entry.asynchronous = false then (some (w, none), agentMakeReady c owner)
      else if owner = self then
        (some (w, entry.waiter), c.setAgent owner fun agent =>
          { agent with
            listedAsync := agent.listedAsync - 1
            record := match entry.waiter with
              | none => agent.record
              | some v => Function.update agent.record v none })
      else
        let c := c.setAgent owner fun agent =>
          { agent with
            listedAsync := agent.listedAsync - 1
            resolved := agent.resolved ++ [w] }
        if (c.agent owner).state = .blocked && (c.agent owner).wakesOnWork then
          (some (w, none), agentMakeReady c owner)
        else (some (w, none), c)

/-! ## Broadcasts and resolved entries -/

/-- Counts one broadcast as retrieved or dropped. -/
def broadcastTaken (c : Cluster B V M) : Cluster B V M :=
  if 0 < c.broadcastRemaining then
    let c := { c with broadcastRemaining := c.broadcastRemaining - 1 }
    if c.broadcastRemaining = 0 then agentMakeReady c c.main else c
  else c

/-- What `oseo_internal_agent_receive` takes in one round. -/
inductive Received (V M : Type)
  | resolved (waiter : Option V)
  | broadcast (message : M)

/-- One round of `oseo_internal_agent_receive`, with `take_broadcast`. -/
def agentReceive [DecidableEq V] (c : Cluster B V M) (self : AgentRef) :
    Option (Received V M) × Cluster B V M :=
  match (c.agent self).resolved with
  | w :: rest =>
    let waiter := (c.waiter w).waiter
    (some (.resolved waiter), c.setAgent self fun agent =>
      { agent with
        resolved := rest
        record := match waiter with
          | none => agent.record
          | some v => Function.update agent.record v none })
  | [] =>
    if (c.agent self).receives then
      match (c.agent self).broadcasts with
      | [] => (none, c)
      | message :: rest =>
        (some (.broadcast message),
          broadcastTaken (c.setAgent self fun agent => { agent with broadcasts := rest }))
    else (none, c)

/-- The deliveries of `agent_broadcast` to the agents of a list, as many as can be allocated:
how many there were. -/
def deliver (message : M) : List AgentRef → ℕ → Cluster B V M → ℕ × Cluster B V M
  | [], _, c => (0, c)
  | a :: rest, allocations, c =>
    if (c.agent a).state = .finished then deliver message rest allocations c
    else
      match allocations with
      | 0 => (0, c)
      | allocations + 1 =>
        let c := c.setAgent a fun agent => { agent with broadcasts := agent.broadcasts ++ [message] }
        let c :=
          if (c.agent a).state = .blocked && (c.agent a).wakesOnWork then agentMakeReady c a else c
        let (delivered, c) := deliver message rest allocations c
        (delivered + 1, c)

/-- `agent_broadcast`, up to the wait for the next turn. -/
def agentBroadcast (c : Cluster B V M) (self : AgentRef) (message : M) (allocations : ℕ) :
    Cluster B V M :=
  let (delivered, c) := deliver message c.agents allocations c
  if 0 < delivered then
    let c := { c with broadcastRemaining := c.broadcastRemaining + delivered }
    agentBlock c self false 0 false none
  else c

/-- `oseo_internal_agent_idle`, up to the wait for the next turn. -/
def agentIdle (c : Cluster B V M) (self : AgentRef) (hasDeadline : Bool) (deadline : ℕ) :
    Cluster B V M :=
  if agentHasWork c self then c else agentBlock c self hasDeadline deadline true none

/-! ## Threads -/

/-- `agent_start`, up to the wait for the next turn. -/
def agentStart (c : Cluster B V M) (self : AgentRef) : Cluster B V M :=
  let a := c.nextAgent
  let c := c.setAgent a fun _ =>
    { readyNext := none
      hasContext := false
      state := .starting
      hasDeadline := false
      wakesOnWork := false
      listedAsync := 0
      resolved := []
      broadcasts := []
      receives := false
      record := fun _ => none
      wakeup := false
      phase := .starting }
  agentBlock { c with agents := c.agents ++ [a], nextAgent := a + 1 } self false 0 false none

/-- The beginning of `agent_thread`, up to the wait for the first turn. -/
def agentThread (c : Cluster B V M) (self : AgentRef) : Cluster B V M :=
  let c := c.setAgent self fun agent =>
    { agent with hasContext := true, state := .ready, phase := .checking none 0 }
  clusterDispatch (agentMakeReady (readyPush c self) c.main)

/-- The walk of `agent_discard_work` over the waiter list. -/
def discardWaiters (agent : AgentRef) :
    ℕ → Option WaiterRef → Cluster B V M → Option (Cluster B V M)
  | _, none, c => some c
  | 0, some _, _ => none
  | fuel + 1, some w, c =>
    let next := (c.waiter w).next
    if (c.waiter w).agent = agent then
      match waiterUnlink c w with
      | none => none
      | some c => discardWaiters agent fuel next c
    else discardWaiters agent fuel next c

/-- `agent_discard_work`. -/
def agentDiscardWork (c : Cluster B V M) (a : AgentRef) : Option (Cluster B V M) :=
  (discardWaiters a c.nextWaiter c.waitersHead c).map fun c =>
    let c := c.setAgent a fun agent => { agent with resolved := [], listedAsync := 0 }
    let c := (c.agent a).broadcasts.foldl (fun c _ => broadcastTaken c) c
    c.setAgent a fun agent => { agent with broadcasts := [] }

/-- The end of `agent_thread`. -/
def agentFinish (c : Cluster B V M) (self : AgentRef) : Cluster B V M :=
  let c := c.setAgent self fun agent =>
    { agent with hasContext := false, state := .finished, phase := .ended }
  clusterCheckProgress (clusterDispatch { c with running := none })

/-- `cluster_reap`. -/
def clusterReap (c : Cluster B V M) : Cluster B V M :=
  { c with agents := c.agents.filter fun a => (c.agent a).state ≠ .finished }

end

/-! ## Steps of the agent cluster -/

variable {B V M : Type} [DecidableEq B] [DecidableEq V]

/-- What a step does to the waiter list. -/
inductive ClusterEvent (B : Type)
  | listed (w : WaiterRef) (agent : AgentRef) (block : B) (byteIndex : ℕ) (asynchronous : Bool)
  | notified (block : B) (byteIndex : ℕ) (w : Option WaiterRef)
  | timedOut (w : WaiterRef)
  | returned (w : WaiterRef) (notified : Bool)
  | unlisted (w : Option WaiterRef)
  | discarded (agent : AgentRef)
  | turn

/-- The cluster that `oseo_test262_host_install` creates: the main agent evaluates. -/
def Cluster.start (waiter : WaiterRef → AgentWaiter B V) : Cluster B V M where
  agent a :=
    { readyNext := none
      hasContext := a = 0
      state := if a = 0 then .running else .finished
      hasDeadline := false
      wakesOnWork := false
      listedAsync := 0
      resolved := []
      broadcasts := []
      receives := false
      record := fun _ => none
      wakeup := false
      phase := if a = 0 then .evaluating else .ended }
  waiter w := { waiter w with listed := false, notified := false }
  main := 0
  agents := []
  running := some 0
  readyHead := none
  readyTail := none
  waitersHead := none
  waitersTail := none
  broadcastRemaining := 0
  nextAgent := 1
  nextWaiter := 0
  exited := false
  pushed := []
  popped := []

/-- The process runs, and the thread of the agent is in the phase. -/
structure Cluster.In (c : Cluster B V M) (a : AgentRef) (phase : Phase) : Prop where
  live : c.exited = false
  phase : (c.agent a).phase = phase

/-- The thread of the agent goes on in another phase. -/
def Cluster.enter (c : Cluster B V M) (a : AgentRef) (phase : Phase) : Cluster B V M :=
  c.setAgent a fun agent => { agent with phase := phase }

/-- One step. -/
inductive ClusterStep : Cluster B V M → ClusterEvent B → Cluster B V M → Prop
  | start {c : Cluster B V M} (h : c.In c.main .evaluating) :
      ClusterStep c .turn (agentStart c c.main)
  | broadcast {c : Cluster B V M} (h : c.In c.main .evaluating) (message : M)
      (allocations : ℕ) : ClusterStep c .turn (agentBroadcast c c.main message allocations)
  | reap {c : Cluster B V M} (h : c.In c.main .evaluating) : ClusterStep c .turn (clusterReap c)
  | thread {c : Cluster B V M} {a : AgentRef} (h : c.In a .starting) :
      ClusterStep c .turn (agentThread c a)
  | yield {c : Cluster B V M} {a : AgentRef} (h : c.In a .evaluating) :
      ClusterStep c .turn (agentYield c a)
  | sleep {c : Cluster B V M} {a : AgentRef} (h : c.In a .evaluating) (deadline : ℕ) :
      ClusterStep c .turn (agentBlock c a true deadline false none)
  | idle {c : Cluster B V M} {a : AgentRef} (h : c.In a .evaluating) (hasDeadline : Bool)
      (deadline : ℕ) : ClusterStep c .turn (agentIdle c a hasDeadline deadline)
  | receiveBroadcast {c : Cluster B V M} {a : AgentRef} (h : c.In a .evaluating) :
      ClusterStep c .turn (c.setAgent a fun agent => { agent with receives := true })
  | receive {c : Cluster B V M} {a : AgentRef} (h : c.In a .evaluating) :
      ClusterStep c .turn (agentReceive c a).2
  | suspend {c : Cluster B V M} {a : AgentRef} (h : c.In a .evaluating) (block : B)
      (byteIndex : ℕ) (finite : Bool) (deadline : ℕ) :
      ClusterStep c (.listed c.nextWaiter a block byteIndex false)
        (agentSuspend c a block byteIndex finite deadline)
  | listWaiter {c : Cluster B V M} {a : AgentRef} (h : c.In a .evaluating) (waiter : V)
      (block : B) (byteIndex : ℕ) :
      ClusterStep c (.listed c.nextWaiter a block byteIndex true)
        (agentListWaiter c a waiter block byteIndex)
  | unlistWaiter {c c' : Cluster B V M} {a : AgentRef} {waiter : V} {w : Option WaiterRef}
      (h : c.In a .evaluating) (run : agentUnlistWaiter c a waiter = some (w, c')) :
      ClusterStep c (.unlisted w) c'
  | notify {c c' : Cluster B V M} {a : AgentRef} {block : B} {byteIndex : ℕ}
      {found : Option (WaiterRef × Option V)} (h : c.In a .evaluating)
      (run : agentNotifyOne c a block byteIndex = some (found, c')) :
      ClusterStep c (.notified block byteIndex (found.map Prod.fst)) c'
  | wakeup {c : Cluster B V M} {a : AgentRef} {waiter : Option WaiterRef} {deadline : ℕ}
      (h : c.In a (.waiting waiter deadline)) (woken : (c.agent a).wakeup = true) :
      ClusterStep c .turn
        ((c.setAgent a fun agent => { agent with wakeup := false }).enter a
          (.checking waiter deadline))
  | waitEnds {c : Cluster B V M} {a : AgentRef} {waiter : Option WaiterRef} {deadline : ℕ}
      (h : c.In a (.waiting waiter deadline)) :
      ClusterStep c .turn (c.enter a (.checking waiter deadline))
  | awaitTurn {c c' : Cluster B V M} {a : AgentRef} {deadline : ℕ} {now : Option ℕ}
      (h : c.In a (.checking none deadline))
      (run : awaitTurn c a none deadline now = some (.turn, c')) :
      ClusterStep c .turn (c'.enter a .evaluating)
  | suspendTurn {c c' c'' : Cluster B V M} {a : AgentRef} {w : WaiterRef} {deadline : ℕ}
      {now : Option ℕ} {notified : Bool} (h : c.In a (.checking (some w) deadline))
      (run : awaitTurn c a (some w) deadline now = some (.turn, c'))
      (last : suspendEnd c' w = some (notified, c'')) :
      ClusterStep c (.returned w notified) (c''.enter a .evaluating)
  | awaitTimedOut {c c' : Cluster B V M} {a : AgentRef} {waiter : Option WaiterRef}
      {deadline : ℕ} {now : Option ℕ} (h : c.In a (.checking waiter deadline))
      (run : awaitTurn c a waiter deadline now = some (.timedOut none, c')) :
      ClusterStep c .turn c'
  | suspendTimedOut {c c' : Cluster B V M} {a : AgentRef} {waiter : Option WaiterRef}
      {deadline : ℕ} {now : Option ℕ} {w : WaiterRef} (h : c.In a (.checking waiter deadline))
      (run : awaitTurn c a waiter deadline now = some (.timedOut (some w), c')) :
      ClusterStep c (.timedOut w) c'
  | awaitWaits {c c' : Cluster B V M} {a : AgentRef} {waiter : Option WaiterRef} {deadline : ℕ}
      {now : Option ℕ} (h : c.In a (.checking waiter deadline))
      (run : awaitTurn c a waiter deadline now = some (.waits, c')) :
      ClusterStep c .turn c'
  | awaitFailed {c c' : Cluster B V M} {a : AgentRef} {deadline : ℕ} {now : Option ℕ}
      (h : c.In a (.checking none deadline))
      (run : awaitTurn c a none deadline now = some (.failed, c')) :
      ClusterStep c .turn { c' with exited := true }
  | suspendFailed {c c' c'' : Cluster B V M} {a : AgentRef} {w : WaiterRef} {deadline : ℕ}
      {now : Option ℕ} {notified : Bool} (h : c.In a (.checking (some w) deadline))
      (run : awaitTurn c a (some w) deadline now = some (.failed, c'))
      (last : suspendEnd c' w = some (notified, c'')) :
      ClusterStep c (.returned w notified) { c'' with exited := true }
  | waitFailed {c : Cluster B V M} {a : AgentRef} {deadline : ℕ}
      (h : c.In a (.waiting none deadline)) : ClusterStep c .turn { c with exited := true }
  | suspendWaitFailed {c c' : Cluster B V M} {a : AgentRef} {w : WaiterRef} {deadline : ℕ}
      {notified : Bool} (h : c.In a (.waiting (some w) deadline))
      (last : suspendEnd c w = some (notified, c')) :
      ClusterStep c (.returned w notified) { c' with exited := true }
  | fail {c : Cluster B V M} {a : AgentRef} (h : c.In a .evaluating) :
      ClusterStep c .turn { c with exited := true }
  | discardWork {c c' : Cluster B V M} {a : AgentRef} (h : c.In a .evaluating)
      (run : agentDiscardWork c a = some c') :
      ClusterStep c (.discarded a) (c'.enter a .ending)
  | finish {c : Cluster B V M} {a : AgentRef} (h : c.In a .ending) (other : a ≠ c.main) :
      ClusterStep c .turn (agentFinish c a)

end Oseo.AgentCluster
