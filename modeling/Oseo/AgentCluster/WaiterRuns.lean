import Oseo.AgentCluster.WaiterTheorems
import Mathlib.Data.List.Induction

/-!
# Runs of the agent cluster: the waiters

In every run the waiter list holds the listed waiters in the order they were listed, and a
notification takes the first one of its block and byte index.
-/

namespace Oseo.AgentCluster

open Option
open List
open Oseo.Library

variable {B V M : Type} {c c' : Cluster B V M} {h : WaiterHistory B} {a self : AgentRef}
  {w : WaiterRef} {queue : List AgentRef}

/-! ## Listing -/

/-- The history in which one more waiter is listed. -/
def WaiterHistory.append (h : WaiterHistory B) (entry : EntryData B V) : WaiterHistory B :=
  { h with
    listing := h.listing ++
      [⟨h.next, entry.agent, entry.block, entry.byteIndex, entry.asynchronous⟩]
    next := h.next + 1 }

/-- The waiters with one entry more, and the agents as they were but for counts and records. -/
lemma Cluster.Waits.append (hw : c.Waits h) {c₁ : Cluster B V M} {entry : EntryData B V}
    (happends : Appends c c₁ entry) (hagent : entry.agent < c.nextAgent)
    (hsame : c'.waiter = c₁.waiter ∧ c'.waitersHead = c₁.waitersHead ∧
      c'.waitersTail = c₁.waitersTail ∧ c'.nextWaiter = c₁.nextWaiter ∧
      c'.nextAgent = c₁.nextAgent)
    (hasync : ∀ x, (c'.agent x).listedAsync =
      (c.agent x).listedAsync + if x = entry.agent ∧ entry.asynchronous = true then 1 else 0)
    (hrecord : ∀ x v w, (c'.agent x).record v = some w → (c.agent x).record v = some w ∨
      w = c.nextWaiter ∧ x = entry.agent ∧ entry.asynchronous = true)
    (hwaits : ∀ x w, (c'.agent x).phase.waiter = some w → (c.agent x).phase.waiter = some w) :
    c'.Waits (h.append entry) := by
  obtain ⟨hwaiter, hhead, htail, hnext, hnextAgent⟩ := hsame
  have hold : ∀ x, x < h.next → (c'.waiter x).agent = (c.waiter x).agent ∧
      (c'.waiter x).asynchronous = (c.waiter x).asynchronous := by
    intro x hx
    have hdata := happends.data x
    rw [if_neg (by rw [hw.lists.next]; exact Nat.ne_of_lt hx)] at hdata
    have heq := data_eq hdata
    rw [hwaiter]
    exact ⟨heq.1, heq.2.2.2.2⟩
  constructor
  case lists => exact (hw.lists.append happends).congr hwaiter hhead htail hnext
  case async =>
    intro x
    show _ = countP _ (h.listing ++ [_])
    rw [countP_append, hasync, hw.async]
    by_cases hx : x = entry.agent
    · simp [hx]
    · have hx' : entry.agent ≠ x := Ne.symm hx
      simp [hx, hx']
  case record =>
    intro x v w' hx
    rcases hrecord x v w' hx with hx | ⟨rfl, rfl, hasync'⟩
    · obtain ⟨hlt, hagent', hasync'⟩ := hw.record x v w' hx
      rw [(hold w' hlt).1, (hold w' hlt).2]
      exact ⟨Nat.lt_succ_of_lt hlt, hagent', hasync'⟩
    · have hdata := happends.data c.nextWaiter
      rw [if_pos rfl, ← hwaiter] at hdata
      rw [← hdata] at hasync' ⊢
      refine ⟨?_, rfl, hasync'⟩
      rw [hw.lists.next]
      exact Nat.lt_succ_self h.next
  case agents =>
    intro e he
    rw [hnextAgent, happends.nextAgent]
    rcases mem_append.mp he with he | he
    · exact hw.agents e he
    · rw [mem_singleton.mp he]
      exact hagent
  case waits =>
    intro x w' hx
    obtain ⟨hlt, hsync⟩ := hw.waits x w' (hwaits x w' hx)
    rw [(hold w' hlt).2]
    exact ⟨Nat.lt_succ_of_lt hlt, hsync⟩

/-- The last entry of the list is an old one. -/
lemma Cluster.Lists.tail_ne (hl : c.Lists h) : c.waitersTail ≠ some c.nextWaiter := by
  rw [hl.tail, hl.next]
  exact fun htail => Nat.lt_irrefl _ (hl.lt _ (lastOr_mem htail))

/-- `oseo_internal_agent_suspend` lists a waiter and blocks. -/
lemma Cluster.Waits.suspend (hw : c.Waits h) (ha : a < c.nextAgent) (block : B) (byteIndex : ℕ)
    (finite : Bool) (deadline : ℕ) :
    (agentSuspend c a block byteIndex finite deadline).Waits
      (h.append (V := V) ⟨a, block, byteIndex, none, false⟩) := by
  have happends := @waiterLink_appends _ _ _ c
    { next := none
      agent := a
      block := block
      byteIndex := byteIndex
      waiter := none
      asynchronous := false
      listed := false
      notified := false } hw.lists.tail_ne rfl
  have hlinked := hw.append happends ha ⟨rfl, rfl, rfl, rfl, rfl⟩
    (fun x => by rw [happends.agent]; simp [AgentWaiter.data])
    (fun x v w => by rw [happends.agent]; exact .inl)
    (fun x w => by rw [happends.agent]; exact id)
  refine hlinked.block (w := c.nextWaiter) ?_ ?_ finite deadline false
  · rw [hw.lists.next]
    exact Nat.lt_succ_self h.next
  · have hdata := happends.data c.nextWaiter
    rw [if_pos rfl] at hdata
    exact (data_eq hdata).2.2.2.2

/-- `oseo_internal_agent_list_waiter` lists an asynchronous waiter. -/
lemma Cluster.Waits.listWaiter [DecidableEq V] (hw : c.Waits h) (ha : a < c.nextAgent)
    (waiter : V) (block : B) (byteIndex : ℕ) :
    (agentListWaiter c a waiter block byteIndex).Waits
      (h.append ⟨a, block, byteIndex, some waiter, true⟩) := by
  have happends := @waiterLink_appends _ _ _ c
    { next := none
      agent := a
      block := block
      byteIndex := byteIndex
      waiter := some waiter
      asynchronous := true
      listed := false
      notified := false } hw.lists.tail_ne rfl
  have hagent := happends.agent
  unfold agentListWaiter
  simp only
  refine hw.append happends ha ⟨rfl, rfl, rfl, rfl, rfl⟩ (fun x => ?_) (fun x v w' => ?_)
    fun x w' => ?_
  · rw [setAgent_agent, hagent]
    by_cases hx : x = a <;> simp [hx]
  · rw [setAgent_agent, hagent]
    by_cases hx : x = a
    · rw [if_pos hx, hx]
      by_cases hv : v = waiter
      · simp only [hv, Function.update_self, some.injEq]
        exact fun heq => .inr ⟨heq.symm, by simp⟩
      · simp only [Function.update_of_ne hv]
        exact .inl
    · rw [if_neg hx]
      exact .inl
  · rw [setAgent_agent, hagent]
    by_cases hx : x = a
    · rw [if_pos hx, hx]
      exact id
    · rw [if_neg hx]
      exact id

/-! ## Leaving the list -/

/-- Removing a waiter that is not listed. -/
lemma remove_of_not_mem (hnot : w ∉ h.refs) : h.remove w = h := by
  have hfilter : (h.listing.filter fun e => decide (e.w ≠ w)) = h.listing := by
    rw [filter_eq_self]
    intro e he
    simpa using fun heq : e.w = w => hnot (heq ▸ mem_map_of_mem he)
  unfold WaiterHistory.remove
  rw [hfilter]

/-- The end of a wait takes its entry off the list, and reports whether it was counted. -/
lemma Cluster.Waits.suspendEnd (hw : c.Waits h) (hsync : (c.waiter w).asynchronous = false) :
    ∃ notified c', suspendEnd c w = some (notified, c') ∧ c'.Waits (h.remove w) ∧
      (notified = true ↔ w ∈ h.counted) := by
  unfold AgentCluster.suspendEnd
  by_cases hlisted : (c.waiter w).listed = true
  · obtain ⟨l₁, l₂, c₁, hrefs, hunlink, hr⟩ := hw.lists.unlink ((hw.lists.listed w).mp hlisted)
    refine ⟨(c₁.waiter w).notified, c₁, ?_, hw.removeSync hrefs hr hsync, ?_⟩
    · simp [hlisted, hunlink]
    · rw [hr.notified]
      exact hw.lists.notified w
  · refine ⟨(c.waiter w).notified, c, ?_, ?_, hw.lists.notified w⟩
    · simp [hlisted]
    · rwa [remove_of_not_mem ((hw.lists.listed w).not.mp hlisted)]

/-- `oseo_internal_agent_unlist_waiter` takes an asynchronous entry off the list, or none. -/
lemma Cluster.Waits.unlistWaiter [DecidableEq V] (hw : c.Waits h) (waiter : V) :
    agentUnlistWaiter c a waiter = some (none, c) ∨
      ∃ e ∈ h.listing, e.asynchronous = true ∧ e.agent = a ∧
        ∃ c', agentUnlistWaiter c a waiter = some (some e.w, c') ∧ c'.Waits (h.remove e.w) := by
  unfold agentUnlistWaiter
  cases hrecord : (c.agent a).record waiter with
  | none => exact .inl rfl
  | some w =>
    by_cases hlisted : (c.waiter w).listed = true
    · obtain ⟨e, he, rfl⟩ := hw.lists.mem_refs hlisted
      obtain ⟨-, hagent, hasync⟩ := hw.record a waiter e.w hrecord
      obtain ⟨hagent', -, -, hasync'⟩ := hw.lists.data e he
      obtain ⟨l₁, l₂, c₁, hrefs, hunlink, hr⟩ := hw.lists.unlink (mem_map_of_mem he)
      refine .inr ⟨e, he, hasync'.symm.trans hasync, hagent'.symm.trans hagent, ?_⟩
      simp only [hlisted, if_true, hunlink, map_some]
      refine ⟨_, rfl, ?_⟩
      rw [← hagent]
      refine hw.removeAsync hrefs hr hasync (fun _ => rfl) (fun agent v w' => ?_) fun _ => rfl
      by_cases hv : v = waiter
      · simp [hv]
      · simp [hv]
    · refine .inl ?_
      simp [hlisted]

/-- What one round of the wait for a turn does to the waiters. -/
def WaiterHistory.Awaits (h : WaiterHistory B) (waiter : Option WaiterRef)
    (c c' : Cluster B V M) : Awaited → Prop
  | .timedOut (some w) => (∃ e ∈ h.listing, e.w = w ∧ e.asynchronous = false) ∧
      waiter = some w ∧ c'.Waits (h.remove w)
  | .turn => c' = c
  | .failed => c' = c
  | _ => c'.Waits h

/-- A thread whose deadline passes takes its own waiter off the list. -/
lemma Cluster.Waits.awaitTurn (hw : c.Waits h) {waiter : Option WaiterRef} {deadline : ℕ}
    {now : Option ℕ} (hphase : (c.agent a).phase.waiter = waiter) :
    ∃ outcome c', awaitTurn c a waiter deadline now = some (outcome, c') ∧
      h.Awaits waiter c c' outcome := by
  have hwait : SameWaits c (c.setAgent a fun agent =>
      { agent with phase := .waiting waiter deadline }) :=
    .of_setAgent rfl (fun _ _ => id) fun w heq => hphase.trans heq
  unfold AgentCluster.awaitTurn
  simp only
  by_cases hrun : c.running = some a
  · exact ⟨.turn, c, if_pos hrun, rfl⟩
  rw [if_neg hrun]
  by_cases hdeadline : ((c.agent a).state = .blocked && (c.agent a).hasDeadline) = true
  · rw [if_pos hdeadline]
    cases now with
    | none => exact ⟨.failed, c, rfl, rfl⟩
    | some now =>
      by_cases hpassed : now ≥ deadline
      · simp only [hpassed, if_true]
        cases hlisted : waiter.filter fun w => (c.waiter w).listed with
        | none => exact ⟨.timedOut none, _, rfl, hw.congr agentMakeReady_sameWaits⟩
        | some w =>
          rw [filter_eq_some_iff] at hlisted
          obtain ⟨rfl, hlisted⟩ := hlisted
          obtain ⟨-, hsync⟩ := hw.waits a w hphase
          obtain ⟨e, he, rfl⟩ := hw.lists.mem_refs hlisted
          obtain ⟨l₁, l₂, c₁, hrefs, hunlink, hr⟩ :=
            hw.lists.unlinkTimedOut (mem_map_of_mem he)
          refine ⟨.timedOut (some e.w), agentMakeReady c₁ a, by simp [hunlink], ?_, rfl, ?_⟩
          · exact ⟨e, he, rfl, (hw.lists.data e he).2.2.2.symm.trans hsync⟩
          · exact (hw.removeSync hrefs hr hsync).congr agentMakeReady_sameWaits
      · simp only [hpassed, if_false]
        exact ⟨.waits, _, rfl, hw.congr hwait⟩
  · rw [if_neg hdeadline]
    exact ⟨.waits, _, rfl, hw.congr hwait⟩

/-- `oseo_internal_agent_notify_one` counts the longest-listed waiter of the block and byte
index. -/
lemma Cluster.Waits.notify [DecidableEq B] [DecidableEq V] (hw : c.Waits h) (block : B)
    (byteIndex : ℕ) : ∃ found c', agentNotifyOne c a block byteIndex = some (found, c') ∧
      found.map Prod.fst = (h.listing.find? fun e =>
        e.block = block ∧ e.byteIndex = byteIndex).map Listing.w ∧
      c'.Waits (waiterStep h (.notified block byteIndex (found.map Prod.fst))) := by
  have hfuel : h.listing.length ≤ c.nextWaiter := by
    simpa [WaiterHistory.refs] using hw.lists.length_le
  have hfind := @findWaiter_eq _ _ _ c _ block byteIndex h.listing c.nextWaiter _ hw.lists.chain
    (fun e he => ⟨(hw.lists.data e he).2.1, (hw.lists.data e he).2.2.1⟩) hfuel
  unfold agentNotifyOne
  rw [hfind]
  cases hfound : h.listing.find? fun e => e.block = block ∧ e.byteIndex = byteIndex with
  | none => exact ⟨none, c, rfl, rfl, hw⟩
  | some e =>
    have he := mem_of_find?_eq_some hfound
    have hmem : e.w ∈ h.refs := mem_map_of_mem he
    obtain ⟨l₁, l₂, c₁, hrefs, hunlink, hr⟩ := hw.lists.unlink hmem
    have hnot : e.w ∉ (h.remove e.w).refs := by simp [refs_remove]
    have hlt : e.w < (h.remove e.w).next := hw.lists.lt _ hmem
    have hnew : e.w ∉ (h.remove e.w).counted := fun hcounted =>
      (hw.lists.counted _ hcounted).1 hmem
    obtain ⟨howner, -, -, -, hasync⟩ := data_eq (hr.data e.w)
    simp only [map_some, hunlink, setWaiter_waiter, if_true]
    by_cases hsync : (c.waiter e.w).asynchronous = false
    · rw [if_pos (hasync.trans hsync)]
      refine ⟨_, _, rfl, rfl, ?_⟩
      exact ((hw.removeSync hrefs hr hsync).count hnot hlt hnew).congr agentMakeReady_sameWaits
    · rw [if_neg (by rwa [hasync]), howner]
      have hasync' : (c.waiter e.w).asynchronous = true := Bool.not_eq_false _ ▸ hsync
      by_cases hself : (c.waiter e.w).agent = a
      · rw [if_pos hself]
        refine ⟨_, _, rfl, rfl, ?_⟩
        have hcomm : ∀ f, (c₁.setWaiter e.w fun entry => { entry with notified := true }).setAgent
            (c.waiter e.w).agent f = (c₁.setAgent (c.waiter e.w).agent f).setWaiter e.w
              fun entry => { entry with notified := true } := fun _ => rfl
        rw [hcomm]
        refine (hw.removeAsync hrefs hr hasync' ?_ (fun agent v w => ?_) ?_).count hnot hlt hnew
        · exact fun _ => rfl
        · cases (c₁.waiter e.w).waiter with
          | none => exact id
          | some v' => by_cases hv : v = v' <;> simp [hv]
        · exact fun _ => rfl
      · rw [if_neg hself]
        have hw₂ := (hw.removeAsync hrefs hr hasync'
          (f := fun agent =>
            { agent with
              listedAsync := agent.listedAsync - 1
              resolved := agent.resolved ++ [e.w] })
          (fun _ => rfl) (fun _ _ _ => id) fun _ => rfl).count hnot hlt hnew
        split
        · exact ⟨_, _, rfl, rfl, hw₂.congr agentMakeReady_sameWaits⟩
        · exact ⟨_, _, rfl, rfl, hw₂⟩

/-- The walk of `agent_discard_work` takes the waiters of its agent off the rest of the list. -/
lemma Cluster.Lists.discard {l₁ l₂ : List (Listing B)} {fuel : ℕ} (hl : c.Lists h)
    (hsplit : h.listing = l₁ ++ l₂) (hfuel : l₂.length ≤ fuel) :
    ∃ c', discardWaiters a fuel (l₂.map Listing.w).head? c = some c' ∧
      c'.Lists { h with listing := l₁ ++ l₂.filter fun e => e.agent ≠ a } ∧
      ∀ x, (c'.waiter x).data = (c.waiter x).data := by
  induction l₂ generalizing c h l₁ fuel with
  | nil =>
    refine ⟨c, ?_, ?_, fun _ => rfl⟩
    · unfold discardWaiters
      rfl
    · rw [filter_nil, ← hsplit]
      exact hl
  | cons e l₂ ih =>
    obtain _ | fuel := fuel
    · cases hfuel
    have hfuel' : l₂.length ≤ fuel := by simpa using hfuel
    have he : e ∈ h.listing := by simp [hsplit]
    have hnext : (c.waiter e.w).next = (l₂.map Listing.w).head? := by
      have hchain := hl.chain
      rw [WaiterHistory.refs, hsplit, map_append, map_cons, chain_middle] at hchain
      exact hchain.2.head_eq
    rw [map_cons, head?_cons]
    unfold discardWaiters
    simp only [hnext]
    rw [(hl.data e he).1]
    by_cases hagent : e.agent = a
    · rw [if_pos hagent]
      obtain ⟨r₁, r₂, c₁, hrefs, hunlink, hr⟩ := hl.unlink (mem_map_of_mem he)
      have hremove : (h.remove e.w).listing = l₁ ++ l₂ := by
        have hnodup : ((l₁ ++ e :: l₂).map Listing.w).Nodup := hsplit ▸ hl.nodup
        exact remove_middle hsplit hnodup
      obtain ⟨c', hrun, hl', hdata⟩ := ih (hl.remove hrefs hr) hremove hfuel'
      refine ⟨c', ?_, ?_, fun x => (hdata x).trans (hr.data x)⟩
      · rw [hunlink]
        exact hrun
      · rw [filter_cons_of_neg (by simp [hagent])]
        exact hl'
    · rw [if_neg hagent]
      obtain ⟨c', hrun, hl', hdata⟩ := @ih c h (l₁ ++ [e]) fuel hl (by simp [hsplit]) hfuel'
      refine ⟨c', hrun, ?_, hdata⟩
      rw [filter_cons_of_pos (by simp [hagent])]
      simpa using hl'

/-- `agent_discard_work` takes the waiters of its agent off the list. -/
lemma Cluster.Waits.discardWork (hw : c.Waits h) (a : AgentRef) :
    ∃ c', agentDiscardWork c a = some c' ∧
      c'.Waits { h with listing := h.listing.filter fun e => e.agent ≠ a } := by
  have hfuel : h.listing.length ≤ c.nextWaiter := by
    simpa [WaiterHistory.refs] using hw.lists.length_le
  obtain ⟨c₁, hrun, hl, hdata⟩ := @Cluster.Lists.discard _ _ _ c h a [] h.listing c.nextWaiter
    hw.lists rfl hfuel
  have hsame := discardWaiters_sameAgents hrun
  have hdropped : Cluster.Waits
      (c₁.setAgent a fun agent => { agent with resolved := [], listedAsync := 0 })
      { h with listing := h.listing.filter fun e => e.agent ≠ a } := by
    have hother : ∀ x, (((c₁.setAgent a fun agent =>
        { agent with resolved := [], listedAsync := 0 }).agent x).record =
          (c.agent x).record) ∧ ((c₁.setAgent a fun agent =>
        { agent with resolved := [], listedAsync := 0 }).agent x).phase = (c.agent x).phase := by
      intro x
      rw [setAgent_agent, hsame.agent]
      by_cases hx : x = a <;> simp [hx]
    constructor
    case lists => exact hl.congr rfl rfl rfl rfl
    case async =>
      intro x
      rw [setAgent_agent, hsame.agent, countP_filter]
      by_cases hx : x = a
      · rw [if_pos hx]
        refine .symm (countP_eq_zero.mpr fun e _ => ?_)
        simpa [hx] using fun heq _ => heq
      · rw [if_neg hx, hw.async x]
        refine countP_congr fun e _ => ?_
        by_cases he : e.agent = x
        · simp [he, hx]
        · simp [he]
    case record =>
      intro x v w' hx
      rw [(hother x).1] at hx
      obtain ⟨hagent, -, -, -, hasync⟩ := data_eq (hdata w')
      rw [Cluster.setAgent_waiter, hagent, hasync]
      exact hw.record x v w' hx
    case agents =>
      intro e he
      rw [Cluster.setAgent_nextAgent, hsame.nextAgent]
      exact hw.agents e (mem_of_mem_filter he)
    case waits =>
      intro x w' hx
      rw [(hother x).2] at hx
      obtain ⟨-, -, -, -, hasync⟩ := data_eq (hdata w')
      rw [Cluster.setAgent_waiter, hasync]
      exact hw.waits x w' hx
  have hhead : c.waitersHead = (h.listing.map Listing.w).head? := hw.lists.chain.head_eq
  unfold agentDiscardWork
  rw [hhead, hrun]
  simp only [map_some]
  refine ⟨_, rfl, ?_⟩
  have hemptied := hdropped.congr (@discardBroadcasts_sameWaits _ _ _ _
    ((c₁.setAgent a fun agent =>
      { agent with resolved := [], listedAsync := 0 }).agent a).broadcasts)
  exact hemptied.congr (.of_setAgent rfl (fun _ _ => id) fun _ => id)

/-! ## Steps -/

/-- A thread that goes on in a phase without a blocking waiter. -/
lemma enter_sameWaits {phase : Phase} (hphase : phase.waiter = none) :
    SameWaits c (c.enter a phase) :=
  .of_setAgent rfl (fun _ _ => id) fun w heq => by
    have : phase.waiter = some w := heq
    rw [hphase] at this
    cases this

/-- A new agent has no waiters. -/
lemma Cluster.Waits.withNewAgent (hw : c.Waits h) : c.withNewAgent.Waits h := by
  have hself : c.withNewAgent.agent c.nextAgent = _ := Function.update_self ..
  have hother : ∀ x, x ≠ c.nextAgent → c.withNewAgent.agent x = c.agent x := by
    intro x hx
    simp [Cluster.withNewAgent, hx]
  constructor
  case lists => exact hw.lists.congr rfl rfl rfl rfl
  case agents => exact fun e he => Nat.lt_succ_of_lt (hw.agents e he)
  case async =>
    intro x
    by_cases hx : x = c.nextAgent
    · rw [hx, hself]
      refine .symm (countP_eq_zero.mpr fun e he => ?_)
      have hne : e.agent ≠ c.nextAgent := Nat.ne_of_lt (hw.agents e he)
      simp [hne]
    · rw [hother x hx]
      exact hw.async x
  case record =>
    intro x v w hx
    by_cases hxn : x = c.nextAgent
    · rw [hxn, hself] at hx
      cases hx
    · rw [hother x hxn] at hx
      exact hw.record x v w hx
  case waits =>
    intro x w hx
    by_cases hxn : x = c.nextAgent
    · rw [hxn, hself] at hx
      cases hx
    · rw [hother x hxn] at hx
      exact hw.waits x w hx

lemma Cluster.Waits.awaited (hw : c.Waits h) {waiter : Option WaiterRef} {deadline : ℕ}
    {now : Option ℕ} {outcome : Awaited} (hin : c.In a (.checking waiter deadline))
    (run : AgentCluster.awaitTurn c a waiter deadline now = some (outcome, c')) :
    h.Awaits waiter c c' outcome := by
  obtain ⟨outcome', c₁, heq, hout⟩ := @Cluster.Waits.awaitTurn _ _ _ _ _ _ hw _ deadline now
    (congrArg Phase.waiter hin.phase)
  have hsome := heq.symm.trans run
  rw [some.injEq, Prod.mk.injEq] at hsome
  rw [← hsome.1, ← hsome.2]
  exact hout

/-- What the end of a blocking wait reports. -/
lemma Cluster.Waits.returned (hw : c.Waits h) {notified : Bool}
    (hphase : (c.agent a).phase.waiter = some w)
    (last : AgentCluster.suspendEnd c w = some (notified, c')) :
    (w < h.next ∧ (notified = true ↔ w ∈ h.counted)) ∧ c'.Waits (h.remove w) := by
  obtain ⟨hlt, hsync⟩ := hw.waits a w hphase
  obtain ⟨notified', c₁, heq, hw₁, hcounted⟩ := hw.suspendEnd hsync
  rw [heq] at last
  cases last
  exact ⟨⟨hlt, hcounted⟩, hw₁⟩

/-- The process ends. -/
lemma Cluster.Waits.exit (hw : c.Waits h) : Cluster.Waits { c with exited := true } h :=
  hw.congr (.of_agent rfl rfl rfl rfl rfl rfl)

/-- Whoever holds the turn is an agent of the cluster. -/
lemma Cluster.Goes.lt_nextAgent (hg : c.Goes queue) (hphase : c.In a .evaluating) :
    a < c.nextAgent := by
  have hst := hg.turns.state_of_running (hg.turns.running_of_evaluating hphase)
  exact (hg.turns.known_lt (by rw [hst]; decide)).2

section
variable [DecidableEq B] [DecidableEq V]

/-- A step keeps the waiters in agreement with the history, and answers as the history asks. -/
theorem ClusterStep.waits {event : ClusterEvent B} (hg : c.Goes queue) (hw : c.Waits h)
    (hstep : ClusterStep c event c') :
    WaiterAnswers h event ∧ c'.Waits (waiterStep h event) := by
  cases hstep with
  | start hin =>
    refine ⟨trivial, ?_⟩
    rw [agentStart_eq]
    exact hw.withNewAgent.congr (agentBlock_sameWaits false 0 false)
  | broadcast hin message allocations =>
    refine ⟨trivial, ?_⟩
    have hdelivered := hw.congr
      (@deliver_sameWaits _ _ _ c message c.agents allocations)
    unfold agentBroadcast
    simp only
    split
    · have hcounted := @Cluster.Waits.congr _ _ _ _
        { (deliver message c.agents allocations c).2 with
          broadcastRemaining := (deliver message c.agents allocations c).2.broadcastRemaining +
            (deliver message c.agents allocations c).1 } _ hdelivered
        (.of_agent rfl rfl rfl rfl rfl rfl)
      exact hcounted.congr (agentBlock_sameWaits false 0 false)
    · exact hdelivered
  | reap hin => exact ⟨trivial, hw.congr (.of_agent rfl rfl rfl rfl rfl rfl)⟩
  | @thread a hin =>
    refine ⟨trivial, ?_⟩
    have hready := hw.congr (@SameWaits.of_setAgent _ _ _ c a (fun agent =>
      { agent with hasContext := true, state := .ready, phase := .checking none 0 })
      rfl (fun _ _ => id) (by simp [Phase.waiter]))
    exact ((hready.congr readyPush_sameWaits).congr agentMakeReady_sameWaits).congr
      clusterDispatch_sameWaits
  | @yield a hin =>
    refine ⟨trivial, ?_⟩
    unfold agentYield
    split
    · exact hw
    · have hready := hw.congr (@SameWaits.of_setAgent _ _ _ c a (fun agent =>
        { agent with state := .ready, phase := .checking none 0 }) rfl (fun _ _ => id) (by simp [Phase.waiter]))
      have hpushed := @Cluster.Waits.congr _ _ _ _
        { readyPush (c.setAgent a fun agent =>
          { agent with state := .ready, phase := .checking none 0 }) a with running := none } _
        (hready.congr (@readyPush_sameWaits _ _ _ _ a))
        (.of_agent rfl rfl rfl rfl rfl rfl)
      exact hpushed.congr clusterDispatch_sameWaits
  | sleep hin deadline => exact ⟨trivial, hw.congr (agentBlock_sameWaits true deadline false)⟩
  | idle hin hasDeadline deadline =>
    refine ⟨trivial, ?_⟩
    unfold agentIdle
    split
    · exact hw
    · exact hw.congr (agentBlock_sameWaits hasDeadline deadline true)
  | receiveBroadcast hin =>
    exact ⟨trivial, hw.congr (.of_setAgent rfl (fun _ _ => id) fun _ => id)⟩
  | receive hin => exact ⟨trivial, hw.congr agentReceive_sameWaits⟩
  | suspend hin block byteIndex finite deadline =>
    refine ⟨hw.lists.next, ?_⟩
    have hsuspended := hw.suspend (hg.lt_nextAgent hin) block byteIndex finite deadline
    show Cluster.Waits _ { listing := _ ++ [⟨c.nextWaiter, _, _, _, _⟩], .. }
    rw [hw.lists.next]
    exact hsuspended
  | listWaiter hin waiter block byteIndex =>
    refine ⟨hw.lists.next, ?_⟩
    have hlisted := hw.listWaiter (hg.lt_nextAgent hin) waiter block byteIndex
    show Cluster.Waits _ { listing := _ ++ [⟨c.nextWaiter, _, _, _, _⟩], .. }
    rw [hw.lists.next]
    exact hlisted
  | @unlistWaiter _ a waiter _ hin run =>
    rcases hw.unlistWaiter (a := a) waiter with heq | ⟨e, he, hasync, -, c₁, heq, hw₁⟩
    · rw [heq] at run
      cases run
      exact ⟨trivial, hw⟩
    · rw [heq] at run
      cases run
      exact ⟨⟨e, he, rfl, hasync⟩, hw₁⟩
  | @notify _ a block byteIndex _ hin run =>
    obtain ⟨found, c₁, heq, hfound, hw₁⟩ := hw.notify (a := a) block byteIndex
    rw [heq] at run
    cases run
    exact ⟨hfound, hw₁⟩
  | @wakeup a waiter deadline hin woken =>
    refine ⟨trivial, ?_⟩
    rw [Cluster.enter, setAgent_setAgent]
    refine hw.congr (.of_setAgent rfl (fun _ _ => id) fun w heq => ?_)
    rw [hin.phase]
    exact heq
  | @waitEnds a waiter deadline hin =>
    refine ⟨trivial, hw.congr (.of_setAgent rfl (fun _ _ => id) fun w heq => ?_)⟩
    rw [hin.phase]
    exact heq
  | @awaitTurn c₁ _ _ _ hin run =>
    obtain rfl : c₁ = c := hw.awaited hin run
    exact ⟨trivial, hw.congr (enter_sameWaits rfl)⟩
  | @suspendTurn c₁ _ _ _ _ _ _ hin run last =>
    obtain rfl : c₁ = c := hw.awaited hin run
    obtain ⟨hanswers, hw₁⟩ := hw.returned (congrArg Phase.waiter hin.phase) last
    exact ⟨hanswers, hw₁.congr (enter_sameWaits rfl)⟩
  | awaitTimedOut hin run => exact ⟨trivial, hw.awaited hin run⟩
  | suspendTimedOut hin run =>
    obtain ⟨hlisted, -, hw₁⟩ := hw.awaited hin run
    exact ⟨hlisted, hw₁⟩
  | awaitWaits hin run => exact ⟨trivial, hw.awaited hin run⟩
  | @awaitFailed c₁ _ _ _ hin run =>
    obtain rfl : c₁ = c := hw.awaited hin run
    exact ⟨trivial, hw.exit⟩
  | @suspendFailed c₁ _ _ _ _ _ _ hin run last =>
    obtain rfl : c₁ = c := hw.awaited hin run
    obtain ⟨hanswers, hw₁⟩ := hw.returned (congrArg Phase.waiter hin.phase) last
    exact ⟨hanswers, hw₁.exit⟩
  | waitFailed hin => exact ⟨trivial, hw.exit⟩
  | suspendWaitFailed hin last =>
    obtain ⟨hanswers, hw₁⟩ := hw.returned (congrArg Phase.waiter hin.phase) last
    exact ⟨hanswers, hw₁.exit⟩
  | fail hin => exact ⟨trivial, hw.exit⟩
  | @discardWork _ a hin run =>
    obtain ⟨c₁, heq, hw₁⟩ := hw.discardWork a
    rw [heq] at run
    cases run
    exact ⟨trivial, hw₁.congr (enter_sameWaits rfl)⟩
  | @finish a hin other =>
    have hover := hw.congr (@SameWaits.of_setAgent _ _ _ c a (fun agent =>
      { agent with hasContext := false, state := .finished, phase := .ended })
      rfl (fun _ _ => id) (by simp [Phase.waiter]))
    have hfree := @Cluster.Waits.congr _ _ _ _
      { c.setAgent a fun agent =>
        { agent with hasContext := false, state := .finished, phase := .ended } with
          running := none } _ hover (.of_agent rfl rfl rfl rfl rfl rfl)
    exact ⟨trivial, (hfree.congr clusterDispatch_sameWaits).congr clusterCheckProgress_sameWaits⟩

/-! ## Runs -/

omit [DecidableEq B] [DecidableEq V] in
/-- A new cluster has no waiters. -/
lemma Cluster.start_waits (waiter : WaiterRef → AgentWaiter B V) :
    (Cluster.start (M := M) waiter).Waits (waitersAfter []) := by
  constructor
  case lists =>
    constructor
    case next => rfl
    case chain => rfl
    case tail => rfl
    case sorted => exact List.Pairwise.nil
    case countedOnce => exact nodup_nil
    all_goals simp [Cluster.start, waitersAfter, WaiterHistory.refs]
  case async => exact fun _ => rfl
  case record => exact fun _ _ _ h => by cases h
  case agents => simp [waitersAfter]
  case waits =>
    intro a w
    by_cases ha : a = 0 <;> simp [Cluster.start, Phase.waiter, ha]

/-- The waiters that notifications counted, in order. -/
def counts (events : List (ClusterEvent B)) : List WaiterRef :=
  events.filterMap fun
    | .notified _ _ w => w
    | _ => none

omit [DecidableEq B] in
lemma waitersAfter_concat (events : List (ClusterEvent B)) (event : ClusterEvent B) :
    waitersAfter (events ++ [event]) = waiterStep (waitersAfter events) event := by
  simp [waitersAfter]

omit [DecidableEq B] in
lemma counted_eq (events : List (ClusterEvent B)) :
    (waitersAfter events).counted = counts events := by
  induction events using reverseRecOn with
  | nil => rfl
  | append_singleton events event ih =>
    rw [waitersAfter_concat]
    unfold counts at ih ⊢
    rw [filterMap_append, ← ih]
    cases event with
    | notified block byteIndex w => cases w <;> simp [waiterStep, WaiterHistory.remove]
    | unlisted w => cases w <;> simp [waiterStep, WaiterHistory.remove]
    | _ => simp [waiterStep, WaiterHistory.remove]

omit [DecidableEq V] in
/-- A waiter that has left the list does not come back, and is not counted any more. -/
lemma gone_step {event : ClusterEvent B} (hanswers : WaiterAnswers h event) (hnot : w ∉ h.refs)
    (hlt : w < h.next) : w ∉ (waiterStep h event).refs ∧ w < (waiterStep h event).next ∧
      (w ∈ (waiterStep h event).counted ↔ w ∈ h.counted) := by
  have hremove : ∀ x, w ∉ (h.remove x).refs := by
    intro x hmem
    rw [refs_remove] at hmem
    exact hnot (mem_of_mem_filter hmem)
  cases event with
  | listed x agent block byteIndex asynchronous =>
    have hx : w ≠ x := by
      rw [show x = h.next from hanswers]
      exact Nat.ne_of_lt hlt
    refine ⟨?_, Nat.lt_succ_of_lt hlt, .rfl⟩
    simpa [waiterStep, WaiterHistory.refs, hx] using hnot
  | notified block byteIndex found =>
    cases found with
    | none => exact ⟨hnot, hlt, .rfl⟩
    | some x =>
      have hx : w ≠ x := by
        rintro rfl
        obtain ⟨e, he, rfl⟩ := map_eq_some_iff.mp (.symm hanswers)
        exact hnot (mem_map_of_mem (mem_of_find?_eq_some he))
      exact ⟨hremove x, hlt, by simp [waiterStep, WaiterHistory.remove, hx]⟩
  | timedOut x => exact ⟨hremove x, hlt, .rfl⟩
  | returned x notified => exact ⟨hremove x, hlt, .rfl⟩
  | unlisted x =>
    cases x with
    | none => exact ⟨hnot, hlt, .rfl⟩
    | some x => exact ⟨hremove x, hlt, .rfl⟩
  | discarded a =>
    refine ⟨fun hmem => hnot ?_, hlt, .rfl⟩
    obtain ⟨e, he, rfl⟩ := mem_map.mp hmem
    exact mem_map_of_mem (mem_of_mem_filter he)
  | turn => exact ⟨hnot, hlt, .rfl⟩

/-- The waiters that have timed out, returned or been unlisted are gone for good. -/
structure WaiterHistory.Settled (h : WaiterHistory B) (events : List (ClusterEvent B)) :
    Prop where
  timedOut : ∀ w, .timedOut w ∈ events → w ∉ h.refs ∧ w < h.next ∧ w ∉ h.counted
  returned : ∀ w notified, .returned w notified ∈ events →
    w ∉ h.refs ∧ w < h.next ∧ (notified = true ↔ w ∈ h.counted)
  unlisted : ∀ w, .unlisted (some w) ∈ events → w ∉ h.refs ∧ w < h.next ∧ w ∉ h.counted

omit [DecidableEq V] in
lemma WaiterHistory.Settled.step {events : List (ClusterEvent B)} {event : ClusterEvent B}
    (hs : h.Settled events) (hl : c.Lists h) (hanswers : WaiterAnswers h event) :
    (waiterStep h event).Settled (events ++ [event]) := by
  have hkeep : ∀ {w}, w ∉ h.refs ∧ w < h.next ∧ w ∉ h.counted →
      w ∉ (waiterStep h event).refs ∧ w < (waiterStep h event).next ∧
        w ∉ (waiterStep h event).counted := by
    intro w hw
    obtain ⟨hnot, hlt, hcounted⟩ := gone_step hanswers hw.1 hw.2.1
    exact ⟨hnot, hlt, hcounted.not.mpr hw.2.2⟩
  -- An entry that leaves the list uncounted.
  have hleft : ∀ e ∈ h.listing, e.w ∉ (h.remove e.w).refs ∧ e.w < h.next ∧ e.w ∉ h.counted := by
    intro e he
    have hmem : e.w ∈ h.refs := mem_map_of_mem he
    exact ⟨by simp [refs_remove], hl.lt _ hmem, fun hcounted => (hl.counted _ hcounted).1 hmem⟩
  constructor
  case timedOut =>
    intro w hmem
    rw [mem_append, mem_singleton] at hmem
    rcases hmem with hmem | rfl
    · exact hkeep (hs.timedOut w hmem)
    · obtain ⟨e, he, rfl, -⟩ := hanswers
      exact hleft e he
  case unlisted =>
    intro w hmem
    rw [mem_append, mem_singleton] at hmem
    rcases hmem with hmem | rfl
    · exact hkeep (hs.unlisted w hmem)
    · obtain ⟨e, he, rfl, -⟩ := hanswers
      exact hleft e he
  case returned =>
    intro w notified hmem
    rw [mem_append, mem_singleton] at hmem
    rcases hmem with hmem | rfl
    · obtain ⟨hnot, hlt, hcounted⟩ := hs.returned w notified hmem
      obtain ⟨hnot', hlt', hcounted'⟩ := gone_step hanswers hnot hlt
      exact ⟨hnot', hlt', hcounted.trans hcounted'.symm⟩
    · exact ⟨by simp [waiterStep, refs_remove], hanswers.1, hanswers.2⟩

/-- What holds of the waiters wherever the lock of the cluster is free.

* The list holds the listed waiters in the order they were listed, and its tail is the last;
* an entry is on it exactly while its flag says so;
* a waiter is counted by one notification at most, and not at all once it has timed out or was
  unlisted;
* a blocking wait reports that it was notified exactly when a notification counted it;
* an agent counts its asynchronous waiters on the list. -/
structure Cluster.WaitersHold (c : Cluster B V M) (events : List (ClusterEvent B)) : Prop where
  chain : Chain (fun w => (c.waiter w).next) c.waitersHead (waitersAfter events).refs none
  tail : c.waitersTail = lastOr none (waitersAfter events).refs
  order : (waitersAfter events).refs.Pairwise (· < ·)
  entry : ∀ e ∈ (waitersAfter events).listing, (c.waiter e.w).agent = e.agent ∧
    (c.waiter e.w).block = e.block ∧ (c.waiter e.w).byteIndex = e.byteIndex ∧
    (c.waiter e.w).asynchronous = e.asynchronous
  listed : ∀ w, (c.waiter w).listed = true ↔ w ∈ (waitersAfter events).refs
  counted : (counts events).Nodup
  timedOut : ∀ w, .timedOut w ∈ events → w ∉ counts events
  unlisted : ∀ w, .unlisted (some w) ∈ events → w ∉ counts events
  returned : ∀ w notified, .returned w notified ∈ events → (notified = true ↔ w ∈ counts events)
  async : ∀ a, (c.agent a).listedAsync =
    (waitersAfter events).listing.countP fun e => e.agent = a && e.asynchronous

/-- Every walk of the waiter list comes to its end. -/
structure Cluster.WalksEnd (c : Cluster B V M) : Prop where
  notify : ∀ a block byteIndex, agentNotifyOne c a block byteIndex ≠ none
  unlist : ∀ a waiter, agentUnlistWaiter c a waiter ≠ none
  discard : ∀ a, agentDiscardWork c a ≠ none
  await : ∀ a waiter deadline now, c.In a (.checking waiter deadline) →
    awaitTurn c a waiter deadline now ≠ none
  last : ∀ a w deadline, c.In a (.checking (some w) deadline) ∨ c.In a (.waiting (some w) deadline) →
    suspendEnd c w ≠ none

lemma Cluster.Waits.walksEnd (hw : c.Waits h) : c.WalksEnd := by
  have hsome : ∀ {α : Type} {x : Option α} {y : α}, x = some y → x ≠ none := by
    intro α x y heq
    rw [heq]
    exact nofun
  constructor
  case notify =>
    intro a block byteIndex
    obtain ⟨found, c', heq, -⟩ := hw.notify (a := a) block byteIndex
    exact hsome heq
  case unlist =>
    intro a waiter
    rcases hw.unlistWaiter (a := a) waiter with heq | ⟨e, -, -, -, c', heq, -⟩
    · exact hsome heq
    · exact hsome heq
  case discard =>
    intro a
    obtain ⟨c', heq, -⟩ := hw.discardWork a
    exact hsome heq
  case await =>
    intro a waiter deadline now hin
    obtain ⟨outcome, c', heq, -⟩ := @Cluster.Waits.awaitTurn _ _ _ _ _ _ hw _ deadline now
      (congrArg Phase.waiter hin.phase)
    exact hsome heq
  case last =>
    intro a w deadline hin
    have hphase : (c.agent a).phase.waiter = some w := by
      rcases hin with hin | hin <;> rw [hin.phase] <;> rfl
    obtain ⟨notified, c', heq, -⟩ := hw.suspendEnd (hw.waits a w hphase).2
    exact hsome heq

/-- In every run the waiter list is first in, first out, each notification takes the
longest-listed waiter of its block and byte index, and each wait reports whether it was taken. -/
theorem clusterRun_waiters {waiter : WaiterRef → AgentWaiter B V} {c : Cluster B V M}
    {events : List (ClusterEvent B)}
    (hrun : Steps ClusterStep (Cluster.start waiter) events c) :
    c.WaitersHold events ∧ c.WalksEnd ∧ ∀ past event rest, events = past ++ event :: rest →
      WaiterAnswers (waitersAfter past) event := by
  obtain ⟨⟨⟨queue, -⟩, hw, hs⟩, heach⟩ := hrun.invariant_each
    (I := fun events c => (∃ queue, Cluster.Goes c queue) ∧ c.Waits (waitersAfter events) ∧
      (waitersAfter events).Settled events)
    (P := fun past event => WaiterAnswers (waitersAfter past) event)
    ⟨⟨[], Cluster.start_goes waiter⟩, Cluster.start_waits waiter, by constructor <;> simp⟩
    fun past c event c' ⟨⟨queue, hg⟩, hw, hs⟩ hstep => by
      obtain ⟨hanswers, hw'⟩ := hstep.waits hg hw
      rw [waitersAfter_concat]
      exact ⟨hanswers, hstep.goes hg, hw', hs.step hw.lists hanswers⟩
  refine ⟨?_, hw.walksEnd, heach⟩
  constructor
  case chain => exact hw.lists.chain
  case tail => exact hw.lists.tail
  case order => exact hw.lists.sorted
  case entry => exact hw.lists.data
  case listed => exact hw.lists.listed
  case async => exact hw.async
  all_goals rw [← counted_eq]
  case counted => exact hw.lists.countedOnce
  case timedOut => exact fun w hmem => (hs.timedOut w hmem).2.2
  case unlisted => exact fun w hmem => (hs.unlisted w hmem).2.2
  case returned => exact fun w notified hmem => (hs.returned w notified hmem).2.2

/-- A run in which the main agent lists an asynchronous waiter, which a notification then
counts. -/
theorem clusterRun_waiters_notified : ∃ c : Cluster ℕ ℕ ℕ,
    c.WaitersHold [.listed 0 0 7 8 true, .notified 7 8 (some 0)] ∧ c.WalksEnd ∧
    ∀ past event rest, [.listed 0 0 7 8 true, .notified 7 8 (some 0)] = past ++ event :: rest →
      WaiterAnswers (waitersAfter past) event := by
  have hlist := @ClusterStep.listWaiter ℕ ℕ ℕ _ _ (Cluster.start fun _ => blankWaiter) 0
    ⟨rfl, rfl⟩ 5 7 8
  exact ⟨_, clusterRun_waiters ((Steps.single hlist).snoc
    (@ClusterStep.notify ℕ ℕ ℕ _ _ _ _ 0 7 8 (some (0, some 5)) ⟨rfl, rfl⟩ rfl))⟩

end

end Oseo.AgentCluster
