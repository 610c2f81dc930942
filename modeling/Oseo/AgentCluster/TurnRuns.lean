import Oseo.AgentCluster.TurnTheorems
import Oseo.Library.Runs

/-!
# Turn operations

What the operations of an agent do to the turn. An operation that gives up the turn leaves it
with an agent, or leaves an agent that goes on by itself, or ends the process.
-/

namespace Oseo.AgentCluster

open Oseo.Library

variable {B V M : Type} {c c' : Cluster B V M} {queue : List AgentRef} {a self : AgentRef}

/-- The turn is with an agent, or nobody awaits it and some agent goes on by itself. -/
structure Cluster.Goes (c : Cluster B V M) (queue : List AgentRef) : Prop where
  turns : c.Turns queue
  idle : c.running = none → queue = []
  progress : c.exited = true ∨ c.running ≠ none ∨ ∃ a ∈ c.main :: c.agents,
    (c.turn a).state = .starting ∨ (c.turn a).state = .blocked ∧ (c.turn a).hasDeadline = true

lemma Cluster.Goes.congr (hg : c.Goes queue) (hs : SameTurns c c') : c'.Goes queue where
  turns := hg.turns.congr hs
  idle := by
    rw [hs.running]
    exact hg.idle
  progress := by
    rw [hs.exited, hs.running, hs.main, hs.agents]
    refine hg.progress.imp_right (.imp_right fun ⟨x, hx, hst⟩ => ⟨x, hx, ?_⟩)
    rw [hs.turn]
    exact hst

lemma Cluster.Turns.exit (ht : c.Turns queue) :
    Cluster.Turns { c with exited := true } queue :=
  ⟨ht.chain, ht.tail, ht.nodup, ht.fifo, ht.ready, ht.running, ht.ok, ht.known, ht.fresh, ht.main⟩

lemma Cluster.Goes.exit (hg : c.Goes queue) : Cluster.Goes { c with exited := true } queue :=
  ⟨hg.turns.exit, hg.idle, .inl rfl⟩

/-- The state of an agent is one of its turn. -/
lemma Cluster.Turns.state_of_running (ht : c.Turns queue) (h : c.running = some a) :
    (c.turn a).state = .running := (ht.running a).mpr h

section
variable {f : Agent V M → Agent V M} {running : Option AgentRef} (ht : c.Turns queue)
  (hst : (c.turn a).state ≠ .finished)
include ht hst

/-- One agent of the cluster in another state. -/
lemma Cluster.Turns.moves (hok : (f (c.agent a)).turn.Ok)
    (hrunning : running = if (f (c.agent a)).state = .running then some a
      else if c.running = some a then none else c.running)
    (hfree : (f (c.agent a)).state = .running → c.running = none ∨ c.running = some a)
    (hmain : a = c.main → (f (c.agent a)).state ≠ .finished ∧ (f (c.agent a)).state ≠ .starting) :
    Moves c { c.setAgent a f with running := running } a := by
  have hself : Cluster.turn { c.setAgent a f with running := running } a =
      (f (c.agent a)).turn := congrArg Agent.turn ((setAgent_agent ..).trans (if_pos rfl))
  constructor
  case others =>
    intro x hx
    exact congrArg Agent.turn ((setAgent_agent ..).trans (if_neg hx))
  case nextAgent => exact Nat.le_refl _
  case agents => exact fun x hx => hx
  case main => rfl
  case known => exact fun _ => ht.known_lt hst
  all_goals rw [hself]
  case running => exact hrunning
  case free => exact hfree
  case ok => exact hok
  case isMain => exact hmain

/-- One agent of the cluster in another state, neither ready now nor before. -/
lemma Cluster.Turns.setAgent
    (hbefore : (c.turn a).state ≠ .ready) (hafter : (f (c.agent a)).state ≠ .ready)
    (hok : (f (c.agent a)).turn.Ok)
    (hrunning : running = if (f (c.agent a)).state = .running then some a
      else if c.running = some a then none else c.running)
    (hfree : (f (c.agent a)).state = .running → c.running = none ∨ c.running = some a)
    (hmain : a = c.main → (f (c.agent a)).state ≠ .finished ∧ (f (c.agent a)).state ≠ .starting) :
    Cluster.Turns { c.setAgent a f with running := running } queue := by
  have ha : a ∉ queue := fun ha => hbefore ((ht.ready a).mpr ha)
  refine (ht.moves hst hok hrunning hfree hmain).turns_of_not_ready ht hbefore ?_ ?_ rfl rfl rfl rfl
  · show (((c.setAgent a f).agent a).turn).state ≠ .ready
    rw [setAgent_agent, if_pos rfl]
    exact hafter
  · intro x hx
    have hxa : x ≠ a := fun heq => ha (heq ▸ hx)
    exact congrArg Agent.readyNext ((setAgent_agent ..).trans (if_neg hxa))

end

/-! ## Giving up the turn -/

/-- A free turn that no agent awaits ends in a stall only when the process ends. -/
lemma Cluster.Turns.checkProgress (ht : c.Turns queue) (hidle : c.running = none → queue = []) :
    ∃ queue', (clusterCheckProgress c).Goes queue' := by
  unfold clusterCheckProgress
  by_cases hsome : (c.running.isSome || c.readyHead.isSome) = true
  · rw [if_pos hsome]
    have hrun : c.running ≠ none := by
      intro hnone
      have hhead : c.readyHead = none := by
        have := ht.chain
        rw [hidle hnone] at this
        exact this
      simp [hnone, hhead] at hsome
    exact ⟨queue, ht, hidle, .inr (.inl hrun)⟩
  rw [if_neg hsome]
  have hnone : c.running = none := by
    by_contra hne
    simp [Option.isSome_iff_ne_none, hne] at hsome
  by_cases hother : clusterOtherProgresses c none = true
  · rw [if_pos hother]
    refine ⟨queue, ht, hidle, .inr (.inr ?_)⟩
    obtain ⟨x, hx, hprogress⟩ := List.any_eq_true.mp hother
    refine ⟨x, hx, ?_⟩
    -- Nobody is ready or runs, so this one starts or has a deadline.
    have hready : (c.agent x).state ≠ .ready := by
      intro hst
      have hmem := (ht.ready x).mp hst
      rw [hidle hnone] at hmem
      exact List.not_mem_nil hmem
    have hrunning : (c.agent x).state ≠ .running := by
      intro hst
      have := (ht.running x).mp hst
      rw [hnone] at this
      cases this
    simpa [Cluster.turn, Agent.turn, Agent.progresses, hready, hrunning] using hprogress
  rw [if_neg hother]
  have hmain : (c.agent c.main).state ≠ .finished := ht.main.1
  rw [if_neg hmain]
  by_cases hwakes : ((c.agent c.main).state = .blocked && (c.agent c.main).wakesOnWork) = true
  · rw [if_pos hwakes]
    obtain ⟨queue', hmade⟩ := ht.makeReady c.main
    have hblocked : (c.turn c.main).state = .blocked := by
      simp only [Bool.and_eq_true, decide_eq_true_eq] at hwakes
      exact hwakes.1
    have hrun := hmade.blocked hblocked
    exact ⟨queue', hmade.turns, fun hnone' => absurd hnone' hrun, .inr (.inl hrun)⟩
  · rw [if_neg hwakes]
    exact ⟨queue, ht.exit, hidle, .inl rfl⟩

/-- The blocked agent, before the turn goes to another one. -/
def Cluster.blocked (c : Cluster B V M) (self : AgentRef) (hasDeadline : Bool) (deadline : ℕ)
    (wakesOnWork : Bool) (waiter : Option WaiterRef) : Cluster B V M :=
  { c.setAgent self fun agent =>
      { agent with
        state := .blocked
        hasDeadline := hasDeadline
        wakesOnWork := wakesOnWork
        phase := .checking waiter deadline } with
    running := none }

lemma agentBlock_eq (hasDeadline : Bool) (deadline : ℕ) (wakesOnWork : Bool)
    (waiter : Option WaiterRef) :
    agentBlock c self hasDeadline deadline wakesOnWork waiter =
      let c := clusterDispatch (c.blocked self hasDeadline deadline wakesOnWork waiter)
      if hasDeadline then c else clusterCheckProgress c := rfl

/-- Blocking gives up the turn. -/
theorem Cluster.Turns.block (ht : c.Turns queue) (hrun : c.running = some self)
    (hasDeadline : Bool) (deadline : ℕ) (wakesOnWork : Bool) (waiter : Option WaiterRef) :
    ∃ queue', (agentBlock c self hasDeadline deadline wakesOnWork waiter).Goes queue' := by
  have hst := ht.state_of_running hrun
  have hctx := (ht.ok self).context (by rw [hst]; decide) (by rw [hst]; decide)
  have hblocked : (c.blocked self hasDeadline deadline wakesOnWork waiter).Turns queue := by
    apply ht.setAgent
    case hst => rw [hst]; decide
    case hbefore => rw [hst]; decide
    case hok =>
      constructor <;> simp [Agent.turn, Phase.Acts, Phase.Awaits]
      exact hctx
    all_goals simp [hrun]
  rw [agentBlock_eq]
  obtain ⟨queue', ht', -, hidle, -⟩ := hblocked.dispatch
  cases hasDeadline with
  | false => exact ht'.checkProgress fun hnone => (hidle hnone).1
  | true =>
    refine ⟨queue', ht', fun hnone => (hidle hnone).1, ?_⟩
    by_cases hnone : (clusterDispatch
        (c.blocked self true deadline wakesOnWork waiter)).running = none
    · -- The turn stays free: the agent itself has a deadline.
      simp only [if_true]
      rw [(hidle hnone).2]
      refine .inr (.inr ⟨self, ht.known self (by rw [hst]; decide), .inr ?_⟩)
      simp [Cluster.turn, Agent.turn, Cluster.blocked]
    · exact .inr (.inl hnone)

/-- Linking an agent and freeing the turn go in any order. -/
lemma readyPush_withRunning (running : Option AgentRef) :
    readyPush { c with running := running } a = { readyPush c a with running := running } := by
  unfold readyPush
  cases h : c.readyTail <;> simp only [Cluster.setAgent, h]

/-- Yielding puts the agent behind those that are ready. -/
lemma Cluster.Goes.yield (hg : c.Goes queue) (hrun : c.running = some self) :
    ∃ queue', (agentYield c self).Goes queue' := by
  unfold agentYield
  by_cases hhead : c.readyHead = none
  · rw [if_pos hhead]
    exact ⟨queue, hg⟩
  rw [if_neg hhead]
  have ht := hg.turns
  have hst := ht.state_of_running hrun
  have hctx := (ht.ok self).context (by rw [hst]; decide) (by rw [hst]; decide)
  have hmoves := @Cluster.Turns.moves _ _ _ c queue self
    (fun agent => { agent with state := .ready, phase := .checking none 0 }) none ht
    (by rw [hst]; decide)
    (by constructor <;> simp [Agent.turn, Phase.Acts, Phase.Awaits]; exact hctx)
    (by simp [hrun]) (by simp) (by simp)
  have hnot : self ∉ queue := by
    rw [← ht.ready self, hst]
    decide
  have hpush := ht.push hmoves (by rw [hst]; decide) (by simp [Cluster.turn, Agent.turn])
    (fun x hx => by
      have hne : x ≠ self := fun heq => hnot (heq ▸ hx)
      simp [hne]) rfl rfl rfl rfl
  rw [readyPush_withRunning] at hpush
  obtain ⟨queue', ht', -, hidle, hsome⟩ := hpush.dispatch
  have hsome' := hsome (.inr (by simp))
  exact ⟨queue', ht', fun hnone => absurd hnone hsome', .inr (.inl hsome')⟩

/-- With an agent in the queue the turn does not stay free. -/
lemma Cluster.Turns.makeReady_dispatch (ht : c.Turns queue) (hne : queue ≠ []) (x : AgentRef) :
    ∃ queue', (clusterDispatch (agentMakeReady c x)).Goes queue' := by
  obtain ⟨queue₁, hmade⟩ := ht.makeReady x
  obtain ⟨queue', ht', -, hidle, hsome⟩ := hmade.turns.dispatch
  refine ⟨queue', ht', fun hnone => (hidle hnone).1, .inr (.inl (hsome ?_))⟩
  by_cases hnone : (agentMakeReady c x).running = none
  · have hchain := hmade.turns.chain
    rw [hmade.idle hnone] at hchain
    rw [hchain.unique ht.chain]
    exact .inr hne
  · exact .inl hnone

/-- A new thread makes its agent ready, and then the main agent. -/
theorem Cluster.Turns.thread (ht : c.Turns queue) (hphase : (c.turn a).phase = .starting) :
    ∃ queue', (agentThread c a).Goes queue' := by
  have hst := (ht.ok a).starting.mp hphase
  have hrun : c.running ≠ some a := by
    intro heq
    have := ht.state_of_running heq
    rw [hst] at this
    cases this
  have hmoves := @Cluster.Turns.moves _ _ _ c queue a
    (fun agent => { agent with hasContext := true, state := .ready, phase := .checking none 0 })
    c.running ht (by rw [hst]; decide)
    (by constructor <;> simp [Agent.turn, Phase.Acts, Phase.Awaits])
    (by simp [hrun]) (by simp) (by simp)
  have hnot : a ∉ queue := by
    rw [← ht.ready a, hst]
    decide
  have hpush := ht.push hmoves (by rw [hst]; decide) (by simp [Cluster.turn, Agent.turn])
    (fun x hx => by
      have hne : x ≠ a := fun heq => hnot (heq ▸ hx)
      simp [hne]) rfl rfl rfl rfl
  exact hpush.makeReady_dispatch (by simp) c.main

/-- An agent that is over passes the turn on. -/
lemma Cluster.Turns.finish (ht : c.Turns queue) (hrun : c.running = some a)
    (hmain : a ≠ c.main) : ∃ queue', (agentFinish c a).Goes queue' := by
  have hst := ht.state_of_running hrun
  have hover := @Cluster.Turns.setAgent _ _ _ c queue a
    (fun agent => { agent with hasContext := false, state := .finished, phase := .ended }) none ht
    (by rw [hst]; decide) (by rw [hst]; decide) (by simp)
    (by constructor <;> simp [Agent.turn, Phase.Acts])
    (by simp [hrun]) (by simp) (fun heq => absurd heq hmain)
  obtain ⟨queue', ht', -, hidle, -⟩ := hover.dispatch
  exact ht'.checkProgress fun hnone => (hidle hnone).1

/-- The cluster with a new agent, before the main agent blocks. -/
def Cluster.withNewAgent (c : Cluster B V M) : Cluster B V M :=
  { c.setAgent c.nextAgent fun _ =>
      { readyNext := none
        hasContext := false
        state := .starting
        hasDeadline := false
        wakesOnWork := false
        listedAsync := 0
        resolved := []
        broadcasts := []
        receives := false
        record := fun _ => none
        wakeup := false
        phase := .starting } with
    agents := c.agents ++ [c.nextAgent]
    nextAgent := c.nextAgent + 1 }

lemma agentStart_eq : agentStart c self = agentBlock c.withNewAgent self false 0 false none := rfl

/-- A new agent starts, and the main agent blocks until it is running. -/
theorem Cluster.Turns.start (ht : c.Turns queue) (hrun : c.running = some self) :
    ∃ queue', (agentStart c self).Goes queue' := by
  have hlast : (c.turn c.nextAgent).state = .finished := ht.fresh c.nextAgent (Nat.le_refl _)
  have hself := ht.state_of_running hrun
  have hne : self ≠ c.nextAgent := by
    intro heq
    rw [heq, hlast] at hself
    cases hself
  have hnot : c.nextAgent ∉ queue := by
    rw [← ht.ready c.nextAgent, hlast]
    decide
  rw [agentStart_eq]
  suffices hnew : c.withNewAgent.Turns queue from hnew.block hrun false 0 false none
  refine Moves.turns (a := c.nextAgent) ?_ ht ?_ ht.tail ht.nodup ht.fifo ?_ fun x _ => Iff.rfl
  · constructor
    case others =>
      intro x hx
      simp [Cluster.withNewAgent, Cluster.turn, hx]
    case main => rfl
    case nextAgent => exact Nat.le_succ _
    case agents =>
      intro x hx
      rw [List.mem_cons] at hx ⊢
      exact hx.imp_right (List.mem_append_left _)
    case known => exact fun _ => by simp [Cluster.withNewAgent]
    case running => simp [Cluster.withNewAgent, Cluster.turn, Agent.turn, hrun, hne]
    case free => simp [Cluster.withNewAgent, Cluster.turn, Agent.turn]
    case ok => constructor <;> simp [Cluster.withNewAgent, Cluster.turn, Agent.turn, Phase.Acts]
    case isMain =>
      intro heq
      exact absurd (heq ▸ hlast) ht.main.1
  · refine ht.chain.congr fun x hx => ?_
    have hx' : x ≠ c.nextAgent := fun heq => hnot (heq ▸ hx)
    simp [Cluster.withNewAgent, hx']
  · simp [Cluster.withNewAgent, Cluster.turn, Agent.turn, hnot]

/-! ## Keeping the turn -/

/-- Making an agent ready does not take the turn away. -/
lemma Cluster.Goes.makeReady (hg : c.Goes queue) (a : AgentRef) :
    ∃ queue', (agentMakeReady c a).Goes queue' ∧
      (c.running ≠ none → (agentMakeReady c a).running = c.running) ∧
      (agentMakeReady c a).exited = c.exited := by
  obtain ⟨queue', hmade⟩ := hg.turns.makeReady a
  by_cases hnone : (agentMakeReady c a).running = none
  · rw [hmade.idle hnone]
    exact ⟨queue, hg, fun _ => rfl, rfl⟩
  · exact ⟨queue', ⟨hmade.turns, fun h => absurd h hnone, .inr (.inl hnone)⟩, hmade.running,
      hmade.exited⟩

lemma SameTurns.of_setAgent {f : Agent V M → Agent V M} (hturn : (f (c.agent a)).turn = c.turn a)
    (hnext : (f (c.agent a)).readyNext = (c.agent a).readyNext) :
    SameTurns c (c.setAgent a f) := by
  constructor
  case turn =>
    intro x
    by_cases hx : x = a
    · rw [hx, Cluster.turn, setAgent_agent, if_pos rfl, hturn]
    · rw [Cluster.turn, setAgent_agent, if_neg hx]
  case readyNext =>
    intro x
    by_cases hx : x = a
    · rw [hx, setAgent_agent, if_pos rfl, hnext]
    · rw [setAgent_agent, if_neg hx]
  all_goals rfl

/-- A thread goes on in another phase, in the same state. -/
lemma Cluster.Goes.setPhase {f : Agent V M → Agent V M} (hg : c.Goes queue)
    (hst : (c.turn a).state ≠ .finished) (hstate : (f (c.agent a)).state = (c.turn a).state)
    (hdeadline : (f (c.agent a)).hasDeadline = (c.turn a).hasDeadline)
    (hnext : (f (c.agent a)).readyNext = (c.agent a).readyNext)
    (hok : (f (c.agent a)).turn.Ok) : (c.setAgent a f).Goes queue := by
  have ht := hg.turns
  have hself : (c.setAgent a f).turn a = (f (c.agent a)).turn :=
    congrArg Agent.turn ((setAgent_agent ..).trans (if_pos rfl))
  have hother : ∀ x, x ≠ a → (c.setAgent a f).turn x = c.turn x := fun x hx =>
    congrArg Agent.turn ((setAgent_agent ..).trans (if_neg hx))
  have hmoves := @Cluster.Turns.moves _ _ _ _ _ _ f c.running ht hst hok
    (by
      rw [hstate]
      by_cases hrun : c.running = some a
      · simp [ht.state_of_running hrun, hrun]
      · have hnot : (c.turn a).state ≠ .running := fun h => hrun ((ht.running a).mp h)
        simp [hrun, hnot])
    (by
      rw [hstate]
      exact fun h => .inr ((ht.running a).mp h))
    (by
      rw [hstate]
      exact fun h => h ▸ ht.main)
  refine ⟨hmoves.turns ht ?_ ht.tail ht.nodup ht.fifo ?_ fun x _ => .rfl, hg.idle, ?_⟩
  · refine ht.chain.congr fun x _ => ?_
    show ((c.setAgent a f).agent x).readyNext = _
    by_cases hx : x = a
    · rw [hx, setAgent_agent, if_pos rfl, hnext]
    · rw [setAgent_agent, if_neg hx]
  · show ((c.setAgent a f).turn a).state = .ready ↔ a ∈ queue
    rw [hself]
    show (f (c.agent a)).state = .ready ↔ a ∈ queue
    rw [hstate]
    exact ht.ready a
  · refine hg.progress.imp_right (.imp_right fun ⟨x, hx, hprogress⟩ => ⟨x, hx, ?_⟩)
    by_cases hxa : x = a
    · rw [hxa] at hprogress ⊢
      rw [hself]
      show (f (c.agent a)).state = .starting ∨ (f (c.agent a)).state = .blocked ∧
        (f (c.agent a)).hasDeadline = true
      rw [hstate, hdeadline]
      exact hprogress
    · rw [hother x hxa]
      exact hprogress

/-! ## The waiter list and the inboxes -/

/-- Every agent and the turn are as they were. -/
structure SameAgents (c c' : Cluster B V M) : Prop where
  agent : c'.agent = c.agent
  main : c'.main = c.main
  agents : c'.agents = c.agents
  running : c'.running = c.running
  readyHead : c'.readyHead = c.readyHead
  readyTail : c'.readyTail = c.readyTail
  nextAgent : c'.nextAgent = c.nextAgent
  exited : c'.exited = c.exited
  pushed : c'.pushed = c.pushed
  popped : c'.popped = c.popped

lemma SameAgents.sameTurns (hs : SameAgents c c') : SameTurns c c' where
  turn x := by rw [Cluster.turn, Cluster.turn, hs.agent]
  readyNext x := by rw [hs.agent]
  main := hs.main
  agents := hs.agents
  running := hs.running
  readyHead := hs.readyHead
  readyTail := hs.readyTail
  nextAgent := hs.nextAgent
  exited := hs.exited
  pushed := hs.pushed
  popped := hs.popped

lemma SameAgents.refl (c : Cluster B V M) : SameAgents c c := by
  constructor <;> rfl

lemma waiterLink_sameAgents (c : Cluster B V M) (w : WaiterRef) :
    SameAgents c (waiterLink c w) := by
  unfold waiterLink
  cases htail : c.waitersTail <;> constructor <;> simp [Cluster.setLink, Cluster.setWaiter, htail]

lemma waiterUnlink_sameAgents {w : WaiterRef} (h : waiterUnlink c w = some c') :
    SameAgents c c' := by
  unfold waiterUnlink at h
  split at h
  · cases h
  · cases h
    exact .refl c
  · next previous _ _ =>
    cases h
    cases previous <;> constructor <;> rfl

lemma unlinkTimedOut_sameAgents {w : WaiterRef} (h : unlinkTimedOut c w = some c') :
    SameAgents c c' := by
  unfold unlinkTimedOut at h
  split at h
  · next previous _ _ =>
    cases h
    cases previous <;> constructor <;> rfl
  · cases h

lemma suspendEnd_sameAgents {w : WaiterRef} {notified : Bool}
    (h : suspendEnd c w = some (notified, c')) : SameAgents c c' := by
  unfold suspendEnd at h
  by_cases hlisted : (c.waiter w).listed = true
  · simp only [hlisted, if_true, Option.map_eq_some_iff, Prod.mk.injEq] at h
    obtain ⟨c₁, hrun, -, rfl⟩ := h
    exact waiterUnlink_sameAgents hrun
  · simp only [hlisted, Option.map_eq_some_iff, Prod.mk.injEq] at h
    obtain ⟨c₁, hrun, -, rfl⟩ := h
    cases hrun
    exact .refl c

lemma discardWaiters_sameAgents {fuel : ℕ} {head : Option WaiterRef}
    (h : discardWaiters a fuel head c = some c') : SameAgents c c' := by
  induction fuel generalizing head c with
  | zero =>
    cases head with
    | none =>
      cases h
      exact .refl _
    | some w => cases h
  | succ fuel ih =>
    cases head with
    | none =>
      cases h
      exact .refl _
    | some w =>
      rw [discardWaiters] at h
      split at h
      · cases hunlink : waiterUnlink c w with
        | none => simp [hunlink] at h
        | some c₁ =>
          simp only [hunlink] at h
          have h₁ := waiterUnlink_sameAgents hunlink
          have h₂ := ih h
          constructor
          case agent => exact h₂.agent.trans h₁.agent
          case main => exact h₂.main.trans h₁.main
          case agents => exact h₂.agents.trans h₁.agents
          case running => exact h₂.running.trans h₁.running
          case readyHead => exact h₂.readyHead.trans h₁.readyHead
          case readyTail => exact h₂.readyTail.trans h₁.readyTail
          case nextAgent => exact h₂.nextAgent.trans h₁.nextAgent
          case exited => exact h₂.exited.trans h₁.exited
          case pushed => exact h₂.pushed.trans h₁.pushed
          case popped => exact h₂.popped.trans h₁.popped
      · exact ih h

/-! ## Runs of the agent cluster: the turn

In every run exactly one agent holds the turn, or none does and some agent goes on by itself, or
the process ends. The ready queue is first in, first out.
-/

lemma Cluster.Turns.state_of_phase (ht : c.Turns queue) {phase : Phase}
    (h : c.In a phase) (hs : phase ≠ .starting) (he : phase ≠ .ended) :
    (c.turn a).state ≠ .starting ∧ (c.turn a).state ≠ .finished := by
  have hok := ht.ok a
  have hphase : (c.turn a).phase = phase := h.phase
  rw [← hphase] at hs he
  exact ⟨hok.starting.not.mp hs, hok.ended.not.mp he⟩

/-- Who evaluates or has discarded its work holds the turn. -/
lemma Cluster.Turns.running_of_acts (ht : c.Turns queue) (h : (c.turn a).phase.Acts) :
    c.running = some a := (ht.running a).mp ((ht.ok a).acts h)

lemma Cluster.Turns.running_of_evaluating (ht : c.Turns queue) (h : c.In a .evaluating) :
    c.running = some a := ht.running_of_acts (.inl h.phase)

/-- The holder of the turn goes on in another phase. -/
lemma Cluster.Goes.enter_acts (hg : c.Goes queue) (hrun : c.running = some a) {phase : Phase}
    (hphase : phase.Acts) : (c.enter a phase).Goes queue := by
  have hst := hg.turns.state_of_running hrun
  have hctx := (hg.turns.ok a).context (by rw [hst]; decide) (by rw [hst]; decide)
  refine hg.setPhase (by rw [hst]; decide) rfl rfl rfl ?_
  have hrunning : (c.agent a).state = .running := hst
  rcases hphase with rfl | rfl
  all_goals
    constructor <;> simp [Agent.turn, Phase.Acts, Phase.Awaits, hrunning]
    exact hctx

/-- A thread goes back to check whether it has the turn. -/
lemma Cluster.Goes.check (hg : c.Goes queue) {waiter : Option WaiterRef} {deadline : ℕ}
    (h : c.In a (.waiting waiter deadline)) {f : Agent V M → Agent V M}
    (hf : ∀ agent, (f agent).state = agent.state ∧ (f agent).hasDeadline = agent.hasDeadline ∧
      (f agent).readyNext = agent.readyNext ∧ (f agent).hasContext = agent.hasContext ∧
      (f agent).phase = .checking waiter deadline) : (c.setAgent a f).Goes queue := by
  have hst := hg.turns.state_of_phase h nofun nofun
  obtain ⟨hstate, hdeadline, hnext, hcontext, hphase⟩ := hf (c.agent a)
  have hst' : (c.agent a).state ≠ .starting ∧ (c.agent a).state ≠ .finished := hst
  refine hg.setPhase hst.2 hstate hdeadline hnext ?_
  have hctx : (c.agent a).hasContext = true := (hg.turns.ok a).context hst.1 hst.2
  constructor <;> simp [Agent.turn, Phase.Acts, Phase.Awaits, hphase, hstate, hcontext, hst', hctx]

/-- One round of the wait for a turn. -/
lemma Cluster.Goes.awaitTurn (hg : c.Goes queue) {waiter : Option WaiterRef} {deadline : ℕ}
    {now : Option ℕ} {outcome : Awaited} (h : c.In a (.checking waiter deadline))
    (run : awaitTurn c a waiter deadline now = some (outcome, c')) :
    ∃ queue', c'.Goes queue' ∧ (outcome = .turn → c'.running = some a) := by
  have hst := hg.turns.state_of_phase h (by simp) (by simp)
  unfold AgentCluster.awaitTurn at run
  by_cases hrun : c.running = some a
  · rw [if_pos hrun] at run
    cases run
    exact ⟨queue, hg, fun _ => hrun⟩
  rw [if_neg hrun] at run
  have hwait : (c.setAgent a fun agent =>
      { agent with phase := .waiting waiter deadline }).Goes queue := by
    refine hg.setPhase hst.2 rfl rfl rfl ?_
    have hnot : (c.agent a).state ≠ .running := fun heq =>
      hrun ((hg.turns.running a).mp heq)
    have hst' : (c.agent a).state ≠ .starting ∧ (c.agent a).state ≠ .finished := hst
    have hctx : (c.agent a).hasContext = true := (hg.turns.ok a).context hst.1 hst.2
    constructor <;> simp [Agent.turn, Phase.Acts, Phase.Awaits, hst', hctx, hnot]
  split at run
  · split at run
    · cases run
      exact ⟨queue, hg, by simp⟩
    · split at run
      · cases hlisted : waiter.filter fun w => (c.waiter w).listed with
        | none =>
          simp only [hlisted] at run
          cases run
          obtain ⟨queue', hg', -⟩ := hg.makeReady a
          exact ⟨queue', hg', by simp⟩
        | some w =>
          simp only [hlisted, Option.map_eq_some_iff] at run
          obtain ⟨c₁, hunlink, heq⟩ := run
          cases heq
          have hg₁ := hg.congr (unlinkTimedOut_sameAgents hunlink).sameTurns
          obtain ⟨queue', hg', -⟩ := hg₁.makeReady a
          exact ⟨queue', hg', by simp⟩
      · cases run
        exact ⟨queue, hwait, by simp⟩
  · cases run
    exact ⟨queue, hwait, by simp⟩

/-- A broadcast that is retrieved or dropped may make the main agent ready. -/
lemma Cluster.Goes.broadcastTaken (hg : c.Goes queue) (hrun : c.running = some a) :
    ∃ queue', (broadcastTaken c).Goes queue' ∧ (broadcastTaken c).running = some a := by
  unfold AgentCluster.broadcastTaken
  by_cases hpos : 0 < c.broadcastRemaining
  · rw [if_pos hpos]
    have hg' : Cluster.Goes { c with broadcastRemaining := c.broadcastRemaining - 1 } queue :=
      hg.congr (by constructor <;> intros <;> rfl)
    by_cases hzero : c.broadcastRemaining - 1 = 0
    · obtain ⟨queue', hg'', hkeep, -⟩ := hg'.makeReady c.main
      refine ⟨queue', ?_, ?_⟩
      · simpa only [hzero, if_true] using hg''
      · have hrun' := hkeep (by simp [hrun])
        simp only [hzero, if_true] at hrun' ⊢
        rw [hrun', hrun]
    · simp only [hzero, if_false]
      exact ⟨queue, hg', hrun⟩
  · rw [if_neg hpos]
    exact ⟨queue, hg, hrun⟩

lemma Cluster.Goes.deliver {message : M} {agents : List AgentRef} {allocations : ℕ}
    (hg : c.Goes queue) (hrun : c.running = some a) :
    ∃ queue', (deliver message agents allocations c).2.Goes queue' ∧
      (deliver message agents allocations c).2.running = some a := by
  induction agents generalizing allocations c queue with
  | nil => exact ⟨queue, hg, hrun⟩
  | cons x rest ih =>
    unfold AgentCluster.deliver
    by_cases hfin : (c.agent x).state = .finished
    · rw [if_pos hfin]
      exact ih hg hrun
    rw [if_neg hfin]
    cases allocations with
    | zero => exact ⟨queue, hg, hrun⟩
    | succ allocations =>
      have hg₁ := hg.congr (@SameTurns.of_setAgent _ _ _ c x (fun agent =>
        { agent with broadcasts := agent.broadcasts ++ [message] }) rfl rfl)
      simp only
      split
      · obtain ⟨queue₂, hg₂, hkeep, -⟩ := hg₁.makeReady x
        exact ih hg₂ ((hkeep (by simp [hrun])).trans hrun)
      · exact ih hg₁ hrun

/-! ## Steps -/

lemma setAgent_setAgent (f g : Agent V M → Agent V M) :
    (c.setAgent a f).setAgent a g = c.setAgent a (g ∘ f) := by
  simp [Cluster.setAgent]

/-- Only agents that are over are released. -/
lemma Cluster.Goes.reap (hg : c.Goes queue) : (clusterReap c).Goes queue := by
  have hmem : ∀ x, (c.turn x).state ≠ .finished → x ∈ c.main :: c.agents →
      x ∈ (clusterReap c).main :: (clusterReap c).agents := by
    intro x hst hx
    rw [List.mem_cons] at hx ⊢
    refine hx.imp_right fun hx => ?_
    exact List.mem_filter.mpr ⟨hx, by simpa [Cluster.turn, Agent.turn] using hst⟩
  have ht := hg.turns
  refine ⟨⟨ht.chain, ht.tail, ht.nodup, ht.fifo, ht.ready, ht.running, ht.ok,
    fun x hst => hmem x hst (ht.known x hst), ht.fresh, ht.main⟩, hg.idle, ?_⟩
  refine hg.progress.imp_right (.imp_right ?_)
  rintro ⟨x, hx, hst⟩
  refine ⟨x, hmem x ?_ hx, hst⟩
  rcases hst with hst | ⟨hst, -⟩
  all_goals
    rw [hst]
    decide

lemma Cluster.Goes.discardBroadcasts {messages : List M} (hg : c.Goes queue)
    (hrun : c.running = some a) : ∃ queue',
      (messages.foldl (fun c _ => AgentCluster.broadcastTaken c) c).Goes queue' ∧
      (messages.foldl (fun c _ => AgentCluster.broadcastTaken c) c).running = some a := by
  induction messages generalizing c queue with
  | nil => exact ⟨queue, hg, hrun⟩
  | cons message rest ih =>
    obtain ⟨queue', hg', hrun'⟩ := hg.broadcastTaken hrun
    exact ih hg' hrun'

lemma Cluster.Goes.discardWork (hg : c.Goes queue) (hrun : c.running = some a)
    (h : agentDiscardWork c a = some c') : ∃ queue', c'.Goes queue' ∧ c'.running = some a := by
  unfold agentDiscardWork at h
  rw [Option.map_eq_some_iff] at h
  obtain ⟨c₁, hdiscard, rfl⟩ := h
  have hsame := discardWaiters_sameAgents hdiscard
  have hg₁ := (hg.congr hsame.sameTurns).congr (@SameTurns.of_setAgent _ _ _ c₁ a (fun agent =>
    { agent with resolved := [], listedAsync := 0 }) rfl rfl)
  obtain ⟨queue₂, hg₂, hrun₂⟩ := hg₁.discardBroadcasts (a := a) (hsame.running.trans hrun)
  exact ⟨queue₂, hg₂.congr (.of_setAgent rfl rfl), hrun₂⟩

lemma Cluster.Goes.receive [DecidableEq V] (hg : c.Goes queue) (hrun : c.running = some a) :
    ∃ queue', (agentReceive c a).2.Goes queue' := by
  unfold agentReceive
  split
  · refine ⟨queue, hg.congr ?_⟩
    dsimp only
    exact .of_setAgent rfl rfl
  · split
    · split
      · exact ⟨queue, hg⟩
      · have hg₁ := hg.congr (@SameTurns.of_setAgent _ _ _ c a (fun agent =>
          { agent with broadcasts := (c.agent a).broadcasts.tail }) rfl rfl)
        next message rest hinbox =>
        rw [hinbox] at hg₁
        obtain ⟨queue', hg', -⟩ := hg₁.broadcastTaken (a := a) hrun
        exact ⟨queue', hg'⟩
    · exact ⟨queue, hg⟩

variable [DecidableEq B] [DecidableEq V] {events : List (ClusterEvent B)}

lemma Cluster.Goes.notify (hg : c.Goes queue) {block : B} {byteIndex : ℕ}
    {found : Option (WaiterRef × Option V)}
    (run : agentNotifyOne c a block byteIndex = some (found, c')) :
    ∃ queue', c'.Goes queue' := by
  unfold agentNotifyOne at run
  split at run
  · cases run
  · cases run
    exact ⟨queue, hg⟩
  · next w _ =>
    rw [Option.map_eq_some_iff] at run
    obtain ⟨c₁, hunlink, heq⟩ := run
    have hg₁ := hg.congr (waiterUnlink_sameAgents hunlink).sameTurns
    have hg₂ : (c₁.setWaiter w fun entry => { entry with notified := true }).Goes queue :=
      hg₁.congr (by constructor <;> intros <;> rfl)
    simp only at heq
    split at heq
    · cases heq
      obtain ⟨queue', hg', -⟩ := hg₂.makeReady _
      exact ⟨queue', hg'⟩
    · split at heq
      · cases heq
        exact ⟨queue, hg₂.congr (.of_setAgent rfl rfl)⟩
      · have hg₃ := hg₂.congr (@SameTurns.of_setAgent _ _ _ _
          ((c₁.setWaiter w fun entry => { entry with notified := true }).waiter w).agent
          (fun agent =>
            { agent with
              listedAsync := agent.listedAsync - 1
              resolved := agent.resolved ++ [w] }) rfl rfl)
        split at heq
        · cases heq
          obtain ⟨queue', hg', -⟩ := hg₃.makeReady _
          exact ⟨queue', hg'⟩
        · cases heq
          exact ⟨queue, hg₃⟩

/-- A step that leaves the process running leaves the turn with an agent, or with an agent that
goes on by itself. -/
theorem ClusterStep.goes {event : ClusterEvent B} (hg : c.Goes queue)
    (h : ClusterStep c event c') : ∃ queue', c'.Goes queue' := by
  cases h with
  | start h => exact hg.turns.start (hg.turns.running_of_evaluating h)
  | broadcast h message allocations =>
    have hrun := hg.turns.running_of_evaluating h
    obtain ⟨queue', hg', hrun'⟩ :=
      @Cluster.Goes.deliver _ _ _ c queue c.main message c.agents allocations hg hrun
    unfold agentBroadcast
    simp only
    split
    · have ht : Cluster.Turns
          { (deliver message c.agents allocations c).2 with
            broadcastRemaining := (deliver message c.agents allocations c).2.broadcastRemaining +
              (deliver message c.agents allocations c).1 } queue' :=
        hg'.turns.congr (by constructor <;> intros <;> rfl)
      exact ht.block hrun' false 0 false none
    · exact ⟨queue', hg'⟩
  | reap h => exact ⟨queue, hg.reap⟩
  | thread h => exact hg.turns.thread h.phase
  | yield h => exact hg.yield (hg.turns.running_of_evaluating h)
  | sleep h deadline =>
    exact hg.turns.block (hg.turns.running_of_evaluating h) true deadline false none
  | idle h hasDeadline deadline =>
    unfold agentIdle
    split
    · exact ⟨queue, hg⟩
    · exact hg.turns.block (hg.turns.running_of_evaluating h) hasDeadline deadline true none
  | receiveBroadcast h => exact ⟨queue, hg.congr (.of_setAgent rfl rfl)⟩
  | receive h => exact hg.receive (hg.turns.running_of_evaluating h)
  | suspend h block byteIndex finite deadline =>
    refine @Cluster.Turns.block _ _ _ _ queue _ ?_ ?_ finite deadline false _
    · refine hg.turns.congr (.trans ?_ (waiterLink_sameAgents _ _).sameTurns)
      constructor <;> intros <;> rfl
    · exact (waiterLink_sameAgents _ _).running.trans (hg.turns.running_of_evaluating h)
  | listWaiter h waiter block byteIndex =>
    unfold agentListWaiter
    refine ⟨queue, hg.congr (.trans ?_ (by exact .of_setAgent rfl rfl))⟩
    refine .trans ?_ (waiterLink_sameAgents _ _).sameTurns
    constructor <;> intros <;> rfl
  | unlistWaiter h run =>
    unfold agentUnlistWaiter at run
    split at run
    · cases run
      exact ⟨queue, hg⟩
    · split at run
      · rw [Option.map_eq_some_iff] at run
        obtain ⟨c₁, hunlink, heq⟩ := run
        cases heq
        have hg₁ := hg.congr (waiterUnlink_sameAgents hunlink).sameTurns
        exact ⟨queue, hg₁.congr (.of_setAgent rfl rfl)⟩
      · cases run
        exact ⟨queue, hg⟩
  | notify h run => exact hg.notify run
  | wakeup h woken =>
    rw [Cluster.enter, setAgent_setAgent]
    exact ⟨queue, hg.check h fun _ => ⟨rfl, rfl, rfl, rfl, rfl⟩⟩
  | waitEnds h => exact ⟨queue, hg.check h fun _ => ⟨rfl, rfl, rfl, rfl, rfl⟩⟩
  | awaitTurn h run =>
    obtain ⟨queue', hg', hturn⟩ := hg.awaitTurn h run
    exact ⟨queue', hg'.enter_acts (hturn rfl) (.inl rfl)⟩
  | suspendTurn h run last =>
    obtain ⟨queue', hg', hturn⟩ := hg.awaitTurn h run
    have hsame := suspendEnd_sameAgents last
    exact ⟨queue', (hg'.congr hsame.sameTurns).enter_acts (hsame.running.trans (hturn rfl))
      (.inl rfl)⟩
  | awaitTimedOut h run =>
    obtain ⟨queue', hg', -⟩ := hg.awaitTurn h run
    exact ⟨queue', hg'⟩
  | suspendTimedOut h run =>
    obtain ⟨queue', hg', -⟩ := hg.awaitTurn h run
    exact ⟨queue', hg'⟩
  | awaitWaits h run =>
    obtain ⟨queue', hg', -⟩ := hg.awaitTurn h run
    exact ⟨queue', hg'⟩
  | awaitFailed h run =>
    obtain ⟨queue', hg', -⟩ := hg.awaitTurn h run
    exact ⟨queue', hg'.exit⟩
  | suspendFailed h run last =>
    obtain ⟨queue', hg', -⟩ := hg.awaitTurn h run
    exact ⟨queue', (hg'.congr (suspendEnd_sameAgents last).sameTurns).exit⟩
  | waitFailed h => exact ⟨queue, hg.exit⟩
  | suspendWaitFailed h last => exact ⟨queue, (hg.congr (suspendEnd_sameAgents last).sameTurns).exit⟩
  | fail h => exact ⟨queue, hg.exit⟩
  | discardWork h run =>
    obtain ⟨queue', hg', hrun⟩ := hg.discardWork (hg.turns.running_of_evaluating h) run
    exact ⟨queue', hg'.enter_acts hrun (.inr rfl)⟩
  | finish h other => exact hg.turns.finish (hg.turns.running_of_acts (.inr h.phase)) other

omit [DecidableEq B] [DecidableEq V] in
/-- The turn of a new cluster is with the main agent. -/
lemma Cluster.start_goes (waiter : WaiterRef → AgentWaiter B V) :
    (Cluster.start (M := M) waiter).Goes [] := by
  refine ⟨?_, fun _ => rfl, .inr (.inl nofun)⟩
  constructor
  case chain => rfl
  case tail => rfl
  case nodup => exact List.nodup_nil
  case fifo => rfl
  case main => exact ⟨nofun, nofun⟩
  case ok =>
    intro a
    by_cases ha : a = 0
    all_goals constructor <;> simp [Cluster.turn, Agent.turn, Cluster.start, Phase.Acts, ha]
  all_goals
    intro a
    by_cases ha : a = 0 <;> simp [Cluster.turn, Agent.turn, Cluster.start, ha]
  exact Ne.symm ha

/-- What holds of the turn wherever the lock of the cluster is free.

* At most one agent runs, the one the cluster records, and only its thread acts;
* the ready queue holds the ready agents, each once, in the order they became ready;
* a thread that has the turn acts, is about to, or has a wakeup for its wait;
* if no agent has the turn, then no agent is ready, and one is starting or blocked with a
  deadline, or the process has ended. -/
structure Cluster.TurnHolds (c : Cluster B V M) (queue : List AgentRef) : Prop where
  running : ∀ a, (c.agent a).state = .running ↔ c.running = some a
  acts : ∀ a, (c.agent a).phase = .evaluating ∨ (c.agent a).phase = .ending →
    c.running = some a
  chain : Chain (fun a => (c.agent a).readyNext) c.readyHead queue none
  tail : c.readyTail = lastOr none queue
  nodup : queue.Nodup
  ready : ∀ a, (c.agent a).state = .ready ↔ a ∈ queue
  order : c.pushed = c.popped ++ queue
  holder : ∀ a, c.running = some a → match (c.agent a).phase with
    | .evaluating | .ending | .checking _ _ => True
    | .waiting _ _ => (c.agent a).wakeup = true
    | .starting | .ended => False
  progress : c.running = none → queue = [] ∧ (c.exited = true ∨ ∃ a ∈ c.main :: c.agents,
    (c.agent a).state = .starting ∧ (c.agent a).phase = .starting ∨
      (c.agent a).state = .blocked ∧ (c.agent a).hasDeadline = true ∧
        (c.agent a).phase.Awaits)

omit [DecidableEq B] [DecidableEq V] in
lemma Cluster.Goes.turnHolds (hg : c.Goes queue) : c.TurnHolds queue where
  running := hg.turns.running
  acts a := hg.turns.running_of_acts
  chain := hg.turns.chain
  tail := hg.turns.tail
  nodup := hg.turns.nodup
  ready := hg.turns.ready
  order := hg.turns.fifo
  holder a hrun := by
    have hok := hg.turns.ok a
    have hst : (c.turn a).state = .running := hg.turns.state_of_running hrun
    cases hphase : (c.agent a).phase with
    | evaluating => trivial
    | ending => trivial
    | checking w d => trivial
    | waiting w d => exact hok.wakeup w d hst hphase
    | starting =>
      have := hok.starting.mp hphase
      rw [hst] at this
      cases this
    | ended =>
      have := hok.ended.mp hphase
      rw [hst] at this
      cases this
  progress hnone := by
    refine ⟨hg.idle hnone, hg.progress.imp_right fun hprogress => ?_⟩
    obtain ⟨a, ha, hst⟩ := hprogress.resolve_left (not_not_intro hnone)
    have hok := hg.turns.ok a
    refine ⟨a, ha, hst.imp (fun hst => ⟨hst, hok.starting.mpr hst⟩) fun hst => ?_⟩
    exact ⟨hst.1, hst.2, hok.awaits (.inr hst.1)⟩

/-- In every run of the cluster the turn is where the cluster records it, and no agent waits for
it for ever: an agent goes on, or the process ends. -/
theorem clusterRun_turn {waiter : WaiterRef → AgentWaiter B V} {c : Cluster B V M}
    (hrun : Steps ClusterStep (Cluster.start waiter) events c) :
    ∃ queue, c.TurnHolds queue := by
  have hgoes := @Steps.invariant _ _ _ _ _ _ (fun _ c => ∃ queue, Cluster.Goes c queue) [] hrun
    ⟨[], Cluster.start_goes waiter⟩ fun _ _ _ _ ⟨queue, hg⟩ hstep => hstep.goes hg
  obtain ⟨queue, hg⟩ := hgoes
  exact ⟨queue, hg.turnHolds⟩

/-- A blank entry of the waiter list. -/
def blankWaiter : AgentWaiter ℕ ℕ :=
  { next := none
    agent := 0
    block := 0
    byteIndex := 0
    waiter := none
    asynchronous := false
    listed := false
    notified := false }

/-- A run in which the main agent starts an agent, whose thread then takes the turn. -/
theorem clusterRun_turn_started : ∃ c : Cluster ℕ ℕ ℕ, c.running = some 1 ∧
    ∃ queue, c.TurnHolds queue := by
  have hstart := @ClusterStep.start ℕ ℕ ℕ _ _ (Cluster.start fun _ => blankWaiter) ⟨rfl, rfl⟩
  have hrun := (Steps.single hstart).snoc (@ClusterStep.thread ℕ ℕ ℕ _ _ _ 1 ⟨rfl, rfl⟩)
  exact ⟨_, rfl, clusterRun_turn hrun⟩

end Oseo.AgentCluster
