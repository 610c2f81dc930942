import Oseo.AgentCluster.Cluster
import Oseo.Library.LinkedChain

/-!
# The turn and the ready queue

The invariant of the turn: at most one agent runs, the ready queue holds the ready agents in the
order they became ready, and a thread that does not hold the turn awaits it.
-/

namespace Oseo.AgentCluster

open List
open Oseo.Library

variable {B V M : Type} {c c' : Cluster B V M} {queue : List AgentRef} {a : AgentRef}

section
variable (c) (a) (f : Agent V M → Agent V M) (w : WaiterRef)
  (g : AgentWaiter B V → AgentWaiter B V)

@[simp] lemma setAgent_agent (x : AgentRef) :
    (c.setAgent a f).agent x = if x = a then f (c.agent a) else c.agent x :=
  Function.update_apply ..

@[simp] lemma setWaiter_agent : (c.setWaiter w g).agent = c.agent := rfl

@[simp] lemma setWaiter_waiter (x : WaiterRef) :
    (c.setWaiter w g).waiter x = if x = w then g (c.waiter w) else c.waiter x :=
  Function.update_apply ..

end

/-- What the turn reads of an agent. -/
structure AgentTurn where
  state : AgentState
  phase : Phase
  hasContext : Bool
  hasDeadline : Bool
  wakesOnWork : Bool
  wakeup : Bool

/-- What the turn reads of an agent. -/
def Agent.turn (agent : Agent V M) : AgentTurn where
  state := agent.state
  phase := agent.phase
  hasContext := agent.hasContext
  hasDeadline := agent.hasDeadline
  wakesOnWork := agent.wakesOnWork
  wakeup := agent.wakeup

/-- What the turn reads of an agent of the cluster. -/
abbrev Cluster.turn (c : Cluster B V M) (a : AgentRef) : AgentTurn := (c.agent a).turn

/-- The thread awaits its turn. -/
def Phase.Awaits : Phase → Prop
  | .waiting _ _ => True
  | .checking _ _ => True
  | _ => False

/-- The thread does what only the holder of the turn may do. -/
def Phase.Acts (phase : Phase) : Prop := phase = .evaluating ∨ phase = .ending

/-- The parts of an agent's turn fit together: who acts runs, who is ready or blocked awaits the
turn, and who runs and still waits has a wakeup. -/
structure AgentTurn.Ok (t : AgentTurn) : Prop where
  acts : t.phase.Acts → t.state = .running
  awaits : t.state = .ready ∨ t.state = .blocked → t.phase.Awaits
  wakeup : ∀ w d, t.state = .running → t.phase = .waiting w d → t.wakeup = true
  context : t.state ≠ .starting → t.state ≠ .finished → t.hasContext = true
  starting : t.phase = .starting ↔ t.state = .starting
  ended : t.phase = .ended ↔ t.state = .finished

/-- The invariant of the turn. -/
structure Cluster.Turns (c : Cluster B V M) (queue : List AgentRef) : Prop where
  chain : Chain (fun a => (c.agent a).readyNext) c.readyHead queue none
  tail : c.readyTail = lastOr none queue
  nodup : queue.Nodup
  fifo : c.pushed = c.popped ++ queue
  ready : ∀ a, (c.turn a).state = .ready ↔ a ∈ queue
  running : ∀ a, (c.turn a).state = .running ↔ c.running = some a
  ok : ∀ a, (c.turn a).Ok
  known : ∀ a, (c.turn a).state ≠ .finished → a ∈ c.main :: c.agents
  fresh : ∀ a, c.nextAgent ≤ a → (c.turn a).state = .finished
  main : (c.turn c.main).state ≠ .finished ∧ (c.turn c.main).state ≠ .starting

/-- An agent that is not over is one of the cluster's. -/
lemma Cluster.Turns.known_lt (ht : c.Turns queue) (hst : (c.turn a).state ≠ .finished) :
    a ∈ c.main :: c.agents ∧ a < c.nextAgent := by
  refine ⟨ht.known a hst, ?_⟩
  by_contra hge
  exact hst (ht.fresh a (Nat.not_lt.mp hge))

/-- Everything the turn reads is as it was. -/
structure SameTurns (c c' : Cluster B V M) : Prop where
  turn : ∀ x, c'.turn x = c.turn x
  readyNext : ∀ x, (c'.agent x).readyNext = (c.agent x).readyNext
  main : c'.main = c.main
  agents : c'.agents = c.agents
  running : c'.running = c.running
  readyHead : c'.readyHead = c.readyHead
  readyTail : c'.readyTail = c.readyTail
  nextAgent : c'.nextAgent = c.nextAgent
  exited : c'.exited = c.exited
  pushed : c'.pushed = c.pushed
  popped : c'.popped = c.popped

lemma SameTurns.trans {c'' : Cluster B V M} (h₁ : SameTurns c c') (h₂ : SameTurns c' c'') :
    SameTurns c c'' where
  turn x := (h₂.turn x).trans (h₁.turn x)
  readyNext x := (h₂.readyNext x).trans (h₁.readyNext x)
  main := h₂.main.trans h₁.main
  agents := h₂.agents.trans h₁.agents
  running := h₂.running.trans h₁.running
  readyHead := h₂.readyHead.trans h₁.readyHead
  readyTail := h₂.readyTail.trans h₁.readyTail
  nextAgent := h₂.nextAgent.trans h₁.nextAgent
  exited := h₂.exited.trans h₁.exited
  pushed := h₂.pushed.trans h₁.pushed
  popped := h₂.popped.trans h₁.popped

lemma Cluster.Turns.congr (ht : c.Turns queue) (hs : SameTurns c c') : c'.Turns queue := by
  constructor
  case chain =>
    rw [hs.readyHead]
    exact ht.chain.congr fun x _ => hs.readyNext x
  case tail => rw [hs.readyTail, ht.tail]
  case nodup => exact ht.nodup
  case fifo => rw [hs.pushed, hs.popped, ht.fifo]
  case ready =>
    intro x
    rw [hs.turn]
    exact ht.ready x
  case running =>
    intro x
    rw [hs.turn, hs.running]
    exact ht.running x
  case ok =>
    intro x
    rw [hs.turn]
    exact ht.ok x
  case known =>
    intro x
    rw [hs.turn, hs.main, hs.agents]
    exact ht.known x
  case fresh =>
    intro x
    rw [hs.turn, hs.nextAgent]
    exact ht.fresh x
  case main =>
    rw [hs.turn, hs.main]
    exact ht.main

/-! ## One agent in another state -/

/-- One agent is in another state, and has what that state asks for. The turn is with it exactly
when it runs. -/
structure Moves (c c' : Cluster B V M) (a : AgentRef) : Prop where
  others : ∀ x, x ≠ a → c'.turn x = c.turn x
  main : c'.main = c.main
  agents : ∀ x, x ∈ c.main :: c.agents → x ∈ c'.main :: c'.agents
  nextAgent : c.nextAgent ≤ c'.nextAgent
  running : c'.running =
    if (c'.turn a).state = .running then some a
    else if c.running = some a then none else c.running
  free : (c'.turn a).state = .running → c.running = none ∨ c.running = some a
  ok : (c'.turn a).Ok
  known : (c'.turn a).state ≠ .finished → a ∈ c'.main :: c'.agents ∧ a < c'.nextAgent
  isMain : a = c.main → (c'.turn a).state ≠ .finished ∧ (c'.turn a).state ≠ .starting

/-- The invariant with one agent in another state, once the queue is right. -/
lemma Moves.turns (hm : Moves c c' a) (ht : c.Turns queue) {queue' : List AgentRef}
    (hchain : Chain (fun x => (c'.agent x).readyNext) c'.readyHead queue' none)
    (htail : c'.readyTail = lastOr none queue') (hnodup : queue'.Nodup)
    (hfifo : c'.pushed = c'.popped ++ queue')
    (hself : (c'.turn a).state = .ready ↔ a ∈ queue')
    (hothers : ∀ x, x ≠ a → (x ∈ queue' ↔ x ∈ queue)) : c'.Turns queue' := by
  have hrun : ∀ x, x ≠ a → (c'.running = some x ↔ c.running = some x) := by
    intro x hx
    rw [hm.running]
    by_cases hst : (c'.turn a).state = .running
    · rw [if_pos hst, Option.some.injEq]
      -- The turn was free, or with the agent itself.
      rcases hm.free hst with hfree | hfree
      · simp [hfree, Ne.symm hx]
      · simp [hfree]
    · rw [if_neg hst]
      by_cases hca : c.running = some a
      · rw [if_pos hca, hca]
        simp [Ne.symm hx]
      · rw [if_neg hca]
  have hrunSelf : (c'.turn a).state = .running ↔ c'.running = some a := by
    rw [hm.running]
    by_cases hst : (c'.turn a).state = .running
    · simp [hst]
    · by_cases hca : c.running = some a <;> simp [hst, hca]
  constructor
  case chain => exact hchain
  case tail => exact htail
  case nodup => exact hnodup
  case fifo => exact hfifo
  case ready =>
    intro x
    by_cases hx : x = a
    · rw [hx]
      exact hself
    · rw [hm.others x hx, hothers x hx]
      exact ht.ready x
  case running =>
    intro x
    by_cases hx : x = a
    · rw [hx]
      exact hrunSelf
    · rw [hm.others x hx, hrun x hx]
      exact ht.running x
  case ok =>
    intro x
    by_cases hx : x = a
    · rw [hx]
      exact hm.ok
    · rw [hm.others x hx]
      exact ht.ok x
  case known =>
    intro x hst
    by_cases hx : x = a
    · rw [hx] at hst ⊢
      exact (hm.known hst).1
    · rw [hm.others x hx] at hst
      exact hm.agents x (ht.known x hst)
  case fresh =>
    intro x hle
    by_cases hx : x = a
    · by_contra hst
      rw [hx] at hst hle
      exact Nat.not_le.mpr (hm.known hst).2 hle
    · rw [hm.others x hx]
      exact ht.fresh x (Nat.le_trans hm.nextAgent hle)
  case main =>
    rw [hm.main]
    by_cases hx : c.main = a
    · rw [hx]
      exact hm.isMain hx.symm
    · rw [hm.others _ hx]
      exact ht.main

/-- One agent in another state, neither ready now nor before. -/
lemma Moves.turns_of_not_ready (hm : Moves c c' a) (ht : c.Turns queue)
    (hbefore : (c.turn a).state ≠ .ready) (hafter : (c'.turn a).state ≠ .ready)
    (hreadyNext : ∀ x ∈ queue, (c'.agent x).readyNext = (c.agent x).readyNext)
    (hhead : c'.readyHead = c.readyHead) (htail : c'.readyTail = c.readyTail)
    (hpushed : c'.pushed = c.pushed) (hpopped : c'.popped = c.popped) : c'.Turns queue := by
  have ha : a ∉ queue := fun ha => hbefore ((ht.ready a).mpr ha)
  refine hm.turns ht ?_ (by rw [htail, ht.tail]) ht.nodup (by rw [hpushed, hpopped, ht.fifo])
    ⟨fun hst => absurd hst hafter, fun hmem => absurd hmem ha⟩ fun x _ => .rfl
  rw [hhead]
  exact ht.chain.congr hreadyNext

/-! ## The ready queue -/

lemma readyPush_of_none (h : c.readyTail = none) :
    readyPush c a =
      { c.setAgent a fun agent => { agent with readyNext := none } with
        readyHead := some a
        readyTail := some a
        pushed := c.pushed ++ [a] } := by
  simp [readyPush, h]

lemma readyPush_of_some {tail : AgentRef} (h : c.readyTail = some tail) :
    readyPush c a =
      { (c.setAgent a fun agent => { agent with readyNext := none }).setAgent tail fun agent =>
          { agent with readyNext := some a } with
        readyTail := some a
        pushed := c.pushed ++ [a] } := by
  simp [readyPush, h]

lemma setAgent_turn {f : Agent V M → Agent V M} (hf : ∀ agent, (f agent).turn = agent.turn)
    (x : AgentRef) : (c.setAgent a f).turn x = c.turn x := by
  unfold Cluster.turn
  by_cases hx : x = a
  · rw [setAgent_agent, if_pos hx, hf, hx]
  · rw [setAgent_agent, if_neg hx]

/-- Only the queue changes. -/
lemma readyPush_same : (∀ x, (readyPush c a).turn x = c.turn x) ∧
    (readyPush c a).main = c.main ∧ (readyPush c a).agents = c.agents ∧
    (readyPush c a).running = c.running ∧ (readyPush c a).nextAgent = c.nextAgent ∧
    (readyPush c a).exited = c.exited := by
  cases h : c.readyTail with
  | none =>
    rw [readyPush_of_none h]
    refine ⟨fun x => ?_, rfl, rfl, rfl, rfl, rfl⟩
    exact @setAgent_turn _ _ _ c a (fun agent => { agent with readyNext := none }) (fun _ => rfl) x
  | some tail =>
    rw [readyPush_of_some h]
    refine ⟨fun x => ?_, rfl, rfl, rfl, rfl, rfl⟩
    refine .trans ?_
      (@setAgent_turn _ _ _ c a (fun agent => { agent with readyNext := none }) (fun _ => rfl) x)
    exact @setAgent_turn _ _ _ _ tail (fun agent => { agent with readyNext := some a })
      (fun _ => rfl) x

/-- The queue with one more agent behind the last one. -/
lemma readyPush_queue (hchain : Chain (fun x => (c.agent x).readyNext) c.readyHead queue none)
    (htail : c.readyTail = lastOr none queue) (hnodup : queue.Nodup) (ha : a ∉ queue) :
    Chain (fun x => ((readyPush c a).agent x).readyNext) (readyPush c a).readyHead
        (queue ++ [a]) none ∧
      (readyPush c a).readyTail = lastOr none (queue ++ [a]) ∧
      (readyPush c a).pushed = c.pushed ++ [a] ∧ (readyPush c a).popped = c.popped := by
  cases hlast : c.readyTail with
  | none =>
    rw [readyPush_of_none hlast, lastOr_concat]
    rw [hlast] at htail
    refine ⟨hchain.concat ha ?_ ?_ (fun x hx => ?_) hnodup, rfl, rfl, rfl⟩
    · rw [if_pos htail.symm]
    · simp
    · simp [hx, ← htail]
  | some tail =>
    rw [readyPush_of_some hlast, lastOr_concat]
    rw [hlast] at htail
    have hne : a ≠ tail := fun heq => ha (heq ▸ lastOr_mem htail.symm)
    refine ⟨hchain.concat ha ?_ ?_ (fun x hx => ?_) hnodup, rfl, rfl, rfl⟩
    · simp [← htail]
    · simp [hne]
    · by_cases hxt : x = tail
      · simp [hxt, ← htail]
      · simp [hx, hxt, Ne.symm hxt, ← htail]

/-- An agent that becomes ready comes last in the queue. -/
lemma Cluster.Turns.push {c₁ : Cluster B V M} (ht : c.Turns queue) (hm : Moves c c₁ a)
    (hbefore : (c.turn a).state ≠ .ready) (hready : (c₁.turn a).state = .ready)
    (hreadyNext : ∀ x ∈ queue, (c₁.agent x).readyNext = (c.agent x).readyNext)
    (hhead : c₁.readyHead = c.readyHead) (htail : c₁.readyTail = c.readyTail)
    (hpushed : c₁.pushed = c.pushed) (hpopped : c₁.popped = c.popped) :
    (readyPush c₁ a).Turns (queue ++ [a]) := by
  have ha : a ∉ queue := fun ha => hbefore ((ht.ready a).mpr ha)
  have hchain : Chain (fun x => (c₁.agent x).readyNext) c₁.readyHead queue none := by
    rw [hhead]
    exact ht.chain.congr hreadyNext
  obtain ⟨hchain', htail', hpushed', hpopped'⟩ :=
    readyPush_queue hchain (by rw [htail, ht.tail]) ht.nodup ha
  obtain ⟨hturn, hmain, hagents, hrunning, hnext, -⟩ := @readyPush_same _ _ _ c₁ a
  have hm' : Moves c (readyPush c₁ a) a :=
    { hm with
      others := fun x hx => (hturn x).trans (hm.others x hx)
      main := hmain.trans hm.main
      agents := fun x hx => by
        rw [hmain, hagents]
        exact hm.agents x hx
      nextAgent := by
        rw [hnext]
        exact hm.nextAgent
      running := by
        rw [hrunning, hturn]
        exact hm.running
      free := by
        rw [hturn]
        exact hm.free
      ok := by
        rw [hturn]
        exact hm.ok
      known := by
        rw [hturn, hmain, hagents, hnext]
        exact hm.known
      isMain := by
        rw [hturn]
        exact hm.isMain }
  refine hm'.turns ht hchain' htail' ?_ ?_ ?_ fun x hx => ?_
  · rw [nodup_append]
    exact ⟨ht.nodup, by simp, fun x hx y hy hxy =>
      ha (mem_singleton.mp hy ▸ hxy ▸ hx)⟩
  · rw [hpushed', hpopped', hpushed, hpopped, ht.fifo, append_assoc]
  · rw [hturn, hready]
    simp
  · rw [mem_append, mem_singleton]
    exact ⟨fun hmem => hmem.resolve_right hx, .inl⟩

/-! ## Handing over the turn -/

lemma clusterDispatch_of_running (h : c.running ≠ none) : clusterDispatch c = c := by
  unfold clusterDispatch
  cases hr : c.running with
  | none => exact absurd hr h
  | some r => rfl

lemma clusterDispatch_of_empty (hr : c.running = none) (h : c.readyHead = none) :
    clusterDispatch c = c := by
  simp [clusterDispatch, readyPop, hr, h]

/-- The head of the queue gets the free turn, and a wakeup. -/
lemma clusterDispatch_of_head (hr : c.running = none) (h : c.readyHead = some a)
    (hcontext : (c.agent a).hasContext = true) :
    clusterDispatch c =
      { c.setAgent a fun agent =>
          { agent with readyNext := none, state := .running, wakeup := true } with
        running := some a
        readyHead := (c.agent a).readyNext
        readyTail := if (c.agent a).readyNext = none then none else c.readyTail
        popped := c.popped ++ [a] } := by
  simp [clusterDispatch, readyPop, hr, h, agentSignal, hcontext, Cluster.setAgent]

/-- A free turn goes to the longest-ready agent. -/
lemma Cluster.Turns.dispatch (ht : c.Turns queue) : ∃ queue',
    (clusterDispatch c).Turns queue' ∧ (clusterDispatch c).exited = c.exited ∧
    ((clusterDispatch c).running = none → queue' = [] ∧ clusterDispatch c = c) ∧
    (c.running ≠ none ∨ queue ≠ [] → (clusterDispatch c).running ≠ none) := by
  by_cases hr : c.running = none
  · cases hq : queue with
    | nil =>
      subst hq
      rw [clusterDispatch_of_empty hr ht.chain]
      exact ⟨[], ht, rfl, fun _ => ⟨rfl, rfl⟩, fun hne => by simp [hr] at hne⟩
    | cons a rest =>
      subst hq
      have ha : (c.turn a).state = .ready := (ht.ready a).mpr mem_cons_self
      have hcontext : (c.agent a).hasContext = true := by
        apply (ht.ok a).context <;> rw [ha] <;> decide
      have hnodup := nodup_cons.mp ht.nodup
      rw [clusterDispatch_of_head hr ht.chain.1 hcontext]
      refine ⟨rest, ?_, rfl, nofun, fun _ => nofun⟩
      have hturn : ∀ x, x ≠ a →
          ((c.setAgent a fun agent =>
            { agent with readyNext := none, state := .running, wakeup := true }).agent x) =
            c.agent x := fun x hx => (setAgent_agent ..).trans (if_neg hx)
      have hself : (c.setAgent a fun agent =>
            { agent with readyNext := none, state := .running, wakeup := true }).agent a =
            { c.agent a with readyNext := none, state := .running, wakeup := true } :=
        (setAgent_agent ..).trans (if_pos rfl)
      have hok := ht.ok a
      refine Moves.turns (a := a) ?_ ht ?_ ?_ hnodup.2 ?_ ?_ fun x hx => ?_
      · constructor
        case others => exact fun x hx => congrArg Agent.turn (hturn x hx)
        case free => exact fun _ => Or.inl hr
        case nextAgent => exact Nat.le_refl _
        case agents => exact fun x hx => hx
        case main => rfl
        case known => exact fun _ => ht.known_lt (by rw [ha]; decide)
        all_goals
          rw [Cluster.turn, hself]
          simp only [Agent.turn]
        case running => simp
        case ok =>
          -- It was ready, so it awaits the turn.
          have hphase : (c.agent a).phase ≠ .starting := hok.starting.not.mpr (by rw [ha]; decide)
          have hphase' : (c.agent a).phase ≠ .ended := hok.ended.not.mpr (by rw [ha]; decide)
          constructor
          case acts => exact fun _ => rfl
          case awaits => exact fun hst => by simp at hst
          case wakeup => exact fun _ _ _ _ => rfl
          case context => exact fun _ _ => hcontext
          case starting => simpa using hphase
          case ended => simpa using hphase'
        case isMain => exact fun _ => by simp
      · show Chain _ (c.agent a).readyNext rest none
        refine ht.chain.2.congr fun x hx => ?_
        have hxa : x ≠ a := fun heq => hnodup.1 (heq ▸ hx)
        exact congrArg Agent.readyNext (hturn x hxa)
      · show (if (c.agent a).readyNext = none then none else c.readyTail) = _
        have hnext : (c.agent a).readyNext = rest.head? := ht.chain.2.head_eq
        cases rest with
        | nil => rw [hnext]; rfl
        | cons b rest => simp [hnext, ht.tail, lastOr_cons]
      · show c.pushed = c.popped ++ [a] ++ rest
        rw [ht.fifo, append_assoc, singleton_append]
      · rw [Cluster.turn, hself]
        simp [Agent.turn, hnodup.1]
      · rw [mem_cons]
        exact ⟨.inr, fun hmem => hmem.resolve_left hx⟩
  · rw [clusterDispatch_of_running hr]
    exact ⟨queue, ht, rfl, fun hnone => absurd hnone hr, fun _ => hr⟩

/-- What making an agent ready does to the turn. -/
structure MadeReady (c c' : Cluster B V M) (a : AgentRef) (queue' : List AgentRef) : Prop where
  turns : c'.Turns queue'
  exited : c'.exited = c.exited
  running : c.running ≠ none → c'.running = c.running
  blocked : (c.turn a).state = .blocked → c'.running ≠ none
  unblocked : (c.turn a).state ≠ .blocked → c' = c
  idle : c'.running = none → c' = c

lemma Cluster.Turns.makeReady (ht : c.Turns queue) (a : AgentRef) :
    ∃ queue', MadeReady c (agentMakeReady c a) a queue' := by
  unfold agentMakeReady
  by_cases ha : (c.agent a).state = .blocked
  · rw [if_pos ha]
    have hst : (c.turn a).state = .blocked := ha
    have hok := ht.ok a
    have hrun : c.running ≠ some a := by
      intro heq
      have := (ht.running a).mpr heq
      rw [hst] at this
      cases this
    have hself : (c.setAgent a fun agent =>
        { agent with state := .ready, hasDeadline := false, wakesOnWork := false }).agent a =
        { c.agent a with state := .ready, hasDeadline := false, wakesOnWork := false } :=
      (setAgent_agent ..).trans (if_pos rfl)
    have hother : ∀ x, x ≠ a → (c.setAgent a fun agent =>
        { agent with state := .ready, hasDeadline := false, wakesOnWork := false }).agent x =
        c.agent x := fun x hx => (setAgent_agent ..).trans (if_neg hx)
    have hmoves : Moves c (c.setAgent a fun agent =>
        { agent with state := .ready, hasDeadline := false, wakesOnWork := false }) a := by
      constructor
      case others => exact fun x hx => congrArg Agent.turn (hother x hx)
      case nextAgent => exact Nat.le_refl _
      case agents => exact fun x hx => hx
      case main => rfl
      case known => exact fun _ => ht.known_lt (by rw [hst]; decide)
      all_goals
        rw [Cluster.turn, hself]
        simp only [Agent.turn]
      case free => exact fun hst => by simp at hst
      case running => simp [hrun]
      case ok =>
        have hphase : (c.agent a).phase ≠ .starting := hok.starting.not.mpr (by rw [hst]; decide)
        have hphase' : (c.agent a).phase ≠ .ended := hok.ended.not.mpr (by rw [hst]; decide)
        constructor
        case acts =>
          intro hacts
          have := hok.acts hacts
          rw [hst] at this
          cases this
        case awaits => exact fun _ => hok.awaits (.inr hst)
        case wakeup => exact fun _ _ hst => by simp at hst
        case context => exact fun _ _ => hok.context (by rw [hst]; decide) (by rw [hst]; decide)
        case starting => simpa using hphase
        case ended => simpa using hphase'
      case isMain => exact fun _ => by simp
    have hpush := ht.push hmoves (by rw [hst]; decide) (congrArg Agent.state hself)
      (fun x hx => by
        have hxa : x ≠ a := by
          intro heq
          rw [heq, ← ht.ready a, hst] at hx
          cases hx
        rw [hother x hxa]) rfl rfl rfl rfl
    obtain ⟨queue', ht', hexited, -, hrunning⟩ := hpush.dispatch
    obtain ⟨-, -, -, hsame, -, hexit⟩ := @readyPush_same _ _ _
      (c.setAgent a fun agent =>
        { agent with state := .ready, hasDeadline := false, wakesOnWork := false }) a
    refine ⟨queue', ht', hexited.trans hexit, fun hne => ?_, fun _ => ?_,
      fun hne => absurd hst hne, fun hnone => ?_⟩
    · rw [clusterDispatch_of_running (by rw [hsame]; exact hne), hsame]
      rfl
    · exact hrunning (.inr (by simp))
    · exact absurd hnone (hrunning (.inr (by simp)))
  · rw [if_neg ha]
    exact ⟨queue, ht, rfl, fun _ => rfl, fun hst => absurd hst ha, fun _ => rfl, fun _ => rfl⟩

end Oseo.AgentCluster
