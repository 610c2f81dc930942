import Oseo.AgentCluster.TurnRuns
import Mathlib.Data.List.Perm.Subperm

/-!
# The waiter list

The waiter list is first in, first out: its entries are those that were listed and have left in
none of the five ways since, in the order they were listed.
-/

namespace Oseo.AgentCluster

open List
open Oseo.Library

variable {B V M : Type} {c c' : Cluster B V M} {w : WaiterRef}

/-! ## The history of the waiters -/

/-- A waiter that is listed. -/
structure Listing (B : Type) where
  w : WaiterRef
  agent : AgentRef
  block : B
  byteIndex : ℕ
  asynchronous : Bool

/-- What a sequence of steps says of the waiters: which are listed, which a notification
counted, and how many there were. -/
structure WaiterHistory (B : Type) where
  listing : List (Listing B)
  counted : List WaiterRef
  next : WaiterRef

/-- The history in which a waiter is no longer listed. -/
def WaiterHistory.remove (h : WaiterHistory B) (w : WaiterRef) : WaiterHistory B :=
  { h with listing := h.listing.filter fun e => e.w ≠ w }

/-- One step. -/
def waiterStep (h : WaiterHistory B) : ClusterEvent B → WaiterHistory B
  | .listed w agent block byteIndex asynchronous =>
    { h with
      listing := h.listing ++ [⟨w, agent, block, byteIndex, asynchronous⟩]
      next := h.next + 1 }
  | .notified _ _ (some w) => { h.remove w with counted := h.counted ++ [w] }
  | .timedOut w => h.remove w
  | .returned w _ => h.remove w
  | .unlisted (some w) => h.remove w
  | .discarded a => { h with listing := h.listing.filter fun e => e.agent ≠ a }
  | _ => h

/-- What a sequence of steps says of the waiters. -/
def waitersAfter (events : List (ClusterEvent B)) : WaiterHistory B :=
  events.foldl waiterStep ⟨[], [], 0⟩

/-- The result a step has to have. A notification takes the longest-listed waiter of its block
and byte index, and a wait reports whether one took it. -/
def WaiterAnswers [DecidableEq B] (h : WaiterHistory B) : ClusterEvent B → Prop
  | .listed w _ _ _ _ => w = h.next
  | .notified block byteIndex found =>
    found = (h.listing.find? fun e => e.block = block ∧ e.byteIndex = byteIndex).map Listing.w
  | .timedOut w => ∃ e ∈ h.listing, e.w = w ∧ e.asynchronous = false
  | .returned w notified => w < h.next ∧ (notified = true ↔ w ∈ h.counted)
  | .unlisted (some w) => ∃ e ∈ h.listing, e.w = w ∧ e.asynchronous = true
  | _ => True

/-! ## The list -/

/-- The waiters that are listed, in order. -/
abbrev WaiterHistory.refs (h : WaiterHistory B) : List WaiterRef := h.listing.map Listing.w

/-- What no operation on the list changes of an entry. -/
structure EntryData (B V : Type) where
  agent : AgentRef
  block : B
  byteIndex : ℕ
  waiter : Option V
  asynchronous : Bool

/-- What no operation on the list changes of an entry. -/
def AgentWaiter.data (entry : AgentWaiter B V) : EntryData B V where
  agent := entry.agent
  block := entry.block
  byteIndex := entry.byteIndex
  waiter := entry.waiter
  asynchronous := entry.asynchronous

lemma data_eq {x y : AgentWaiter B V} (h : x.data = y.data) :
    x.agent = y.agent ∧ x.block = y.block ∧ x.byteIndex = y.byteIndex ∧ x.waiter = y.waiter ∧
      x.asynchronous = y.asynchronous := by
  simpa [AgentWaiter.data] using h

/-- The waiter list agrees with the history. -/
structure Cluster.Lists (c : Cluster B V M) (h : WaiterHistory B) : Prop where
  next : c.nextWaiter = h.next
  chain : Chain (fun w => (c.waiter w).next) c.waitersHead h.refs none
  tail : c.waitersTail = lastOr none h.refs
  sorted : h.refs.Pairwise (· < ·)
  lt : ∀ w ∈ h.refs, w < h.next
  data : ∀ e ∈ h.listing, (c.waiter e.w).agent = e.agent ∧ (c.waiter e.w).block = e.block ∧
    (c.waiter e.w).byteIndex = e.byteIndex ∧ (c.waiter e.w).asynchronous = e.asynchronous
  listed : ∀ w, (c.waiter w).listed = true ↔ w ∈ h.refs
  notified : ∀ w, (c.waiter w).notified = true ↔ w ∈ h.counted
  counted : ∀ w ∈ h.counted, w ∉ h.refs ∧ w < h.next
  countedOnce : h.counted.Nodup

variable {h : WaiterHistory B}

lemma Cluster.Lists.nodup (hl : c.Lists h) : h.refs.Nodup :=
  hl.sorted.imp fun hlt => Nat.ne_of_lt hlt

lemma Cluster.Lists.length_le (hl : c.Lists h) : h.refs.length ≤ c.nextWaiter := by
  have hsub : h.refs ⊆ range h.next := fun w hw => mem_range.mpr (hl.lt w hw)
  have hle := (subperm_of_subset hl.nodup hsub).length_le
  rwa [length_range, ← hl.next] at hle

lemma refs_remove (h : WaiterHistory B) (w : WaiterRef) :
    (h.remove w).refs = h.refs.filter (· ≠ w) := by
  show (h.listing.filter fun e => decide (e.w ≠ w)).map Listing.w = _
  rw [filter_map]
  rfl

/-- Removing one waiter from the list of the waiters. -/
lemma filter_ne_middle {a b : List WaiterRef} (hnodup : (a ++ w :: b).Nodup) :
    (a ++ w :: b).filter (· ≠ w) = a ++ b := by
  obtain ⟨-, ha, hb, -⟩ := nodup_middle hnodup
  rw [filter_append, filter_cons_of_neg (by simp), filter_eq_self.mpr,
    filter_eq_self.mpr]
  · intro x hx
    simpa using fun heq : x = w => hb (heq ▸ hx)
  · intro x hx
    simpa using fun heq : x = w => ha (heq ▸ hx)

/-! ## Unlinking -/

/-- The walk finds the entry and the one before it. -/
lemma waiterWalk_found {p a b : List WaiterRef} {fuel : ℕ} {head : Option WaiterRef}
    (hchain : Chain (fun x => (c.waiter x).next) head (a ++ w :: b) none) (hw : w ∉ a)
    (hfuel : (a ++ w :: b).length ≤ fuel) :
    waiterWalk c w fuel (lastOr none p) head = some (lastOr none (p ++ a), some w) := by
  induction a generalizing p fuel head with
  | nil =>
    rw [nil_append] at hchain
    rw [hchain.1, append_nil]
    unfold waiterWalk
    exact if_pos rfl
  | cons x a ih =>
    have hx : x ≠ w := fun heq => hw (heq ▸ mem_cons_self)
    obtain _ | fuel := fuel
    · cases hfuel
    rw [cons_append] at hchain hfuel
    rw [hchain.1]
    unfold waiterWalk
    rw [if_neg hx]
    have := @ih (p ++ [x]) fuel _ hchain.2 (fun h => hw (mem_cons_of_mem _ h))
      (by simpa using hfuel)
    rw [lastOr_concat, append_assoc, singleton_append] at this
    exact this

/-- What removing the entry behind the entries `a` changes. -/
structure Removes (c c' : Cluster B V M) (a : List WaiterRef) (w : WaiterRef) : Prop where
  head : c'.waitersHead = if lastOr none a = none then (c.waiter w).next else c.waitersHead
  tail : c'.waitersTail = if c.waitersTail = some w then lastOr none a else c.waitersTail
  links : ∀ x, x ≠ w → (c'.waiter x).next =
    if lastOr none a = some x then (c.waiter w).next else (c.waiter x).next
  listed : ∀ x, (c'.waiter x).listed = if x = w then false else (c.waiter x).listed
  notified : ∀ x, (c'.waiter x).notified = (c.waiter x).notified
  data : ∀ x, (c'.waiter x).data = (c.waiter x).data
  nextWaiter : c'.nextWaiter = c.nextWaiter
  agent : c'.agent = c.agent
  nextAgent : c'.nextAgent = c.nextAgent

/-- The last entry of a list with one entry less. -/
lemma lastOr_remove {a b : List WaiterRef} (hnodup : (a ++ w :: b).Nodup) :
    lastOr none (a ++ b) =
      if lastOr none (a ++ w :: b) = some w then lastOr none a else lastOr none (a ++ w :: b) := by
  obtain ⟨-, -, hb, -⟩ := nodup_middle hnodup
  rcases eq_nil_or_concat b with rfl | ⟨b, z, rfl⟩
  · rw [append_nil, lastOr_concat, if_pos rfl]
  · rw [concat_eq_append] at *
    have hz : z ≠ w := fun heq => hb (heq ▸ by simp)
    rw [← cons_append, ← append_assoc, ← append_assoc, lastOr_concat,
      lastOr_concat, if_neg (by simpa using hz)]

/-- The list with one entry less. -/
lemma Cluster.Lists.remove (hl : c.Lists h) {a b : List WaiterRef} (hrefs : h.refs = a ++ w :: b)
    (hr : Removes c c' a w) : c'.Lists (h.remove w) := by
  have hnodup := hl.nodup
  rw [hrefs] at hnodup
  have hrefs' : (h.remove w).refs = a ++ b := by
    rw [refs_remove, hrefs, filter_ne_middle hnodup]
  have hmem : ∀ x, x ∈ (h.remove w).refs ↔ x ∈ h.refs ∧ x ≠ w := by
    intro x
    rw [refs_remove, mem_filter]
    simp
  constructor
  case next => rw [hr.nextWaiter]; exact hl.next
  case chain =>
    have hchain := hl.chain
    rw [hrefs] at hchain
    rw [hrefs']
    exact hchain.unlink hnodup hr.head hr.links
  case tail => rw [hrefs', hr.tail, hl.tail, hrefs, lastOr_remove hnodup]
  case sorted =>
    rw [refs_remove]
    exact hl.sorted.filter _
  case lt => exact fun x hx => hl.lt x ((hmem x).mp hx).1
  case data =>
    intro e he
    obtain ⟨hagent, hblock, hbyte, -, hasync⟩ := data_eq (hr.data e.w)
    rw [hagent, hblock, hbyte, hasync]
    exact hl.data e (mem_of_mem_filter he)
  case listed =>
    intro x
    rw [hr.listed, hmem]
    by_cases hx : x = w
    · simp [hx]
    · rw [if_neg hx, hl.listed]
      simp [hx]
  case notified =>
    intro x
    rw [hr.notified]
    exact hl.notified x
  case counted =>
    intro x hx
    obtain ⟨hnot, hlt⟩ := hl.counted x hx
    exact ⟨fun hmem' => hnot ((hmem x).mp hmem').1, hlt⟩
  case countedOnce => exact hl.countedOnce

lemma setLink_removes {a b : List WaiterRef} (hnodup : (a ++ w :: b).Nodup)
    {f : AgentWaiter B V → AgentWaiter B V}
    (hf : ∀ entry, (f entry).listed = false ∧ (f entry).notified = entry.notified ∧
      (f entry).data = entry.data) :
    Removes c
      ({ c.setLink (lastOr none a) (c.waiter w).next with
        waitersTail := if (c.setLink (lastOr none a) (c.waiter w).next).waitersTail = some w then
          lastOr none a
        else (c.setLink (lastOr none a) (c.waiter w).next).waitersTail }.setWaiter w f) a w := by
  unfold Cluster.setLink
  cases hlast : lastOr none a with
  | none =>
    constructor
    case links =>
      intro x hx
      simp [hlast, hx]
    case listed =>
      intro x
      by_cases hx : x = w <;> simp [hx, (hf _).1]
    case notified =>
      intro x
      by_cases hx : x = w <;> simp [hx, (hf _).2.1]
    case data =>
      intro x
      by_cases hx : x = w <;> simp [hx, (hf _).2.2]
    all_goals simp [hlast, Cluster.setWaiter]
  | some p =>
    have hpw : p ≠ w := fun heq => (nodup_middle hnodup).2.1 (heq ▸ lastOr_mem hlast)
    constructor
    case links =>
      intro x hx
      by_cases hxp : x = p
      · simp [hlast, hxp, hpw]
      · simp [hlast, hx, hxp, Ne.symm hxp]
    case listed =>
      intro x
      by_cases hx : x = w
      · simp [hx, (hf _).1]
      · by_cases hxp : x = p <;> simp [hx, hxp, hpw]
    case notified =>
      intro x
      by_cases hx : x = w
      · simp [hx, (hf _).2.1, Ne.symm hpw]
      · by_cases hxp : x = p <;> simp [hx, hxp, hpw]
    case data =>
      intro x
      by_cases hx : x = w
      · simp [hx, (hf _).2.2, Ne.symm hpw]
      · by_cases hxp : x = p <;> simp [hx, hxp, hpw, AgentWaiter.data]
    case tail =>
      by_cases htail : c.waitersTail = some w <;> simp [hlast, Cluster.setWaiter, htail]
    all_goals simp [hlast, Cluster.setWaiter]

/-- The walk to a listed entry ends there. -/
lemma Cluster.Lists.walk (hl : c.Lists h) (hw : w ∈ h.refs) : ∃ a b, h.refs = a ++ w :: b ∧
    waiterWalk c w c.nextWaiter none c.waitersHead = some (lastOr none a, some w) := by
  obtain ⟨a, b, hrefs⟩ := append_of_mem hw
  have hnodup := hl.nodup
  have hchain := hl.chain
  have hlen := hl.length_le
  rw [hrefs] at hnodup hchain hlen
  exact ⟨a, b, hrefs, @waiterWalk_found _ _ _ c w [] a b _ _ hchain (nodup_middle hnodup).2.1 hlen⟩

/-- Unlinking a listed entry. -/
lemma Cluster.Lists.unlink (hl : c.Lists h) (hw : w ∈ h.refs) :
    ∃ a b c', h.refs = a ++ w :: b ∧ waiterUnlink c w = some c' ∧ Removes c c' a w := by
  obtain ⟨a, b, hrefs, hwalk⟩ := hl.walk hw
  refine ⟨a, b, _, hrefs, ?_, @setLink_removes _ _ _ c w a b (hrefs ▸ hl.nodup)
    (fun entry => { entry with next := none, listed := false }) fun _ => ⟨rfl, rfl, rfl⟩⟩
  unfold waiterUnlink
  rw [hwalk]

/-- The unlinking of a waiter that timed out. -/
lemma Cluster.Lists.unlinkTimedOut (hl : c.Lists h) (hw : w ∈ h.refs) :
    ∃ a b c', h.refs = a ++ w :: b ∧ unlinkTimedOut c w = some c' ∧ Removes c c' a w := by
  obtain ⟨a, b, hrefs, hwalk⟩ := hl.walk hw
  refine ⟨a, b, _, hrefs, ?_, @setLink_removes _ _ _ c w a b (hrefs ▸ hl.nodup)
    (fun entry => { entry with listed := false }) fun _ => ⟨rfl, rfl, rfl⟩⟩
  unfold AgentCluster.unlinkTimedOut
  rw [hwalk]

/-! ## Linking -/

/-- What listing a new entry changes. -/
structure Appends (c c' : Cluster B V M) (entry : EntryData B V) : Prop where
  head : c'.waitersHead = if c.waitersTail = none then some c.nextWaiter else c.waitersHead
  tail : c'.waitersTail = some c.nextWaiter
  last : (c'.waiter c.nextWaiter).next = none
  links : ∀ x, x ≠ c.nextWaiter → (c'.waiter x).next =
    if c.waitersTail = some x then some c.nextWaiter else (c.waiter x).next
  listed : ∀ x, (c'.waiter x).listed = if x = c.nextWaiter then true else (c.waiter x).listed
  notified : ∀ x, (c'.waiter x).notified =
    if x = c.nextWaiter then false else (c.waiter x).notified
  data : ∀ x, (c'.waiter x).data = if x = c.nextWaiter then entry else (c.waiter x).data
  nextWaiter : c'.nextWaiter = c.nextWaiter + 1
  agent : c'.agent = c.agent
  nextAgent : c'.nextAgent = c.nextAgent

lemma waiterLink_appends {entry : AgentWaiter B V} (htail : c.waitersTail ≠ some c.nextWaiter)
    (hnotified : entry.notified = false) :
    Appends c (waiterLink (c.newWaiter entry) c.nextWaiter) entry.data := by
  unfold waiterLink Cluster.newWaiter
  cases hlast : c.waitersTail with
  | none =>
    constructor
    case links =>
      intro x hx
      simp [Cluster.setLink, Cluster.setWaiter, hlast, hx]
    case listed =>
      intro x
      by_cases hx : x = c.nextWaiter <;> simp [Cluster.setLink, Cluster.setWaiter, hx]
    case notified =>
      intro x
      by_cases hx : x = c.nextWaiter <;>
        simp [Cluster.setLink, Cluster.setWaiter, hx, hnotified]
    case data =>
      intro x
      by_cases hx : x = c.nextWaiter <;>
        simp [Cluster.setLink, Cluster.setWaiter, hx, AgentWaiter.data]
    all_goals simp [Cluster.setLink, Cluster.setWaiter, hlast]
  | some p =>
    have hp : p ≠ c.nextWaiter := fun heq => htail (heq ▸ hlast)
    constructor
    case links =>
      intro x hx
      by_cases hxp : x = p
      · simp [Cluster.setLink, Cluster.setWaiter, hlast, hxp, hp]
      · simp [Cluster.setLink, Cluster.setWaiter, hlast, hxp, Ne.symm hxp, hx]
    case listed =>
      intro x
      by_cases hx : x = c.nextWaiter
      · simp [Cluster.setLink, Cluster.setWaiter, hx]
      · by_cases hxp : x = p <;> simp [Cluster.setLink, Cluster.setWaiter, hx, hxp, hp]
    case notified =>
      intro x
      by_cases hx : x = c.nextWaiter
      · simp [Cluster.setLink, Cluster.setWaiter, hx, hnotified, Ne.symm hp]
      · by_cases hxp : x = p <;> simp [Cluster.setLink, Cluster.setWaiter, hx, hxp, hp]
    case data =>
      intro x
      by_cases hx : x = c.nextWaiter
      · simp [Cluster.setLink, Cluster.setWaiter, hx, AgentWaiter.data, Ne.symm hp]
      · by_cases hxp : x = p <;>
          simp [Cluster.setLink, Cluster.setWaiter, hx, hxp, hp, AgentWaiter.data]
    case last => simp [Cluster.setLink, Cluster.setWaiter, Ne.symm hp]
    all_goals simp [Cluster.setLink, Cluster.setWaiter, hlast]

/-- The list with one entry more, behind the last one. -/
theorem Cluster.Lists.append (hl : c.Lists h) {entry : EntryData B V}
    (ha : Appends c c' entry) :
    c'.Lists
      { h with
        listing := h.listing ++
          [⟨h.next, entry.agent, entry.block, entry.byteIndex, entry.asynchronous⟩]
        next := h.next + 1 } := by
  have hnext := hl.next
  have hfresh : c.nextWaiter ∉ h.refs := by
    intro hmem
    have hlt := hl.lt _ hmem
    rw [hnext] at hlt
    exact Nat.lt_irrefl _ hlt
  have hrefs : (h.listing ++ [(⟨h.next, entry.agent, entry.block, entry.byteIndex,
      entry.asynchronous⟩ : Listing B)]).map Listing.w = h.refs ++ [c.nextWaiter] := by
    rw [map_append, map_singleton, hnext]
  have htail := hl.tail
  constructor
  case next => rw [ha.nextWaiter, hnext]
  case chain =>
    show Chain _ _ (map _ _) none
    rw [hrefs]
    refine hl.chain.concat hfresh ?_ ha.last (fun x hx => ?_) hl.nodup
    · rw [ha.head, htail]
    · rw [ha.links x hx, htail]
  case tail =>
    show _ = lastOr none (map _ _)
    rw [hrefs, lastOr_concat, ha.tail]
  case sorted =>
    show List.Pairwise _ (map _ _)
    rw [hrefs, pairwise_append]
    refine ⟨hl.sorted, pairwise_singleton _ _, fun x hx y hy => ?_⟩
    rw [mem_singleton.mp hy, hnext]
    exact hl.lt x hx
  case lt =>
    intro x hx
    change x ∈ map _ _ at hx
    rw [hrefs, mem_append, mem_singleton] at hx
    rcases hx with hx | hx
    · exact Nat.lt_succ_of_lt (hl.lt x hx)
    · rw [hx, hnext]
      exact Nat.lt_succ_self _
  case data =>
    intro e he
    rcases mem_append.mp he with he | he
    · have hne : e.w ≠ c.nextWaiter := fun heq => hfresh (heq ▸ mem_map_of_mem he)
      have hdata := ha.data e.w
      rw [if_neg hne] at hdata
      obtain ⟨hagent, hblock, hbyte, -, hasync⟩ := data_eq hdata
      rw [hagent, hblock, hbyte, hasync]
      exact hl.data e he
    · rw [mem_singleton.mp he]
      have hdata := ha.data c.nextWaiter
      rw [if_pos rfl] at hdata
      rw [← hnext, ← hdata]
      exact ⟨rfl, rfl, rfl, rfl⟩
  case listed =>
    intro x
    show _ ↔ x ∈ map _ _
    rw [hrefs, mem_append, mem_singleton, ha.listed]
    by_cases hx : x = c.nextWaiter
    · simp [hx]
    · simp [hx, hl.listed]
  case notified =>
    intro x
    rw [ha.notified]
    by_cases hx : x = c.nextWaiter
    · rw [if_pos hx, hx]
      refine ⟨nofun, fun hmem => ?_⟩
      have hlt := (hl.counted _ hmem).2
      rw [hnext] at hlt
      exact absurd hlt (Nat.lt_irrefl _)
    · rw [if_neg hx]
      exact hl.notified x
  case counted =>
    intro x hx
    obtain ⟨hnot, hlt⟩ := hl.counted x hx
    refine ⟨?_, Nat.lt_succ_of_lt hlt⟩
    show x ∉ map _ _
    rw [hrefs, mem_append, mem_singleton]
    rintro (hmem | heq)
    · exact hnot hmem
    · rw [heq, hnext] at hlt
      exact Nat.lt_irrefl _ hlt
  case countedOnce => exact hl.countedOnce

/-! ## Waiter operations

What the operations of an agent do to the waiter list, to the counts of asynchronous waiters and
to the records of the heap waiters.
-/

variable {a self : AgentRef}

/-- The blocking waiter of a thread that awaits its turn. -/
def Phase.waiter : Phase → Option WaiterRef
  | .waiting waiter _ => waiter
  | .checking waiter _ => waiter
  | _ => none

/-- The waiters agree with the history. -/
structure Cluster.Waits (c : Cluster B V M) (h : WaiterHistory B) : Prop where
  lists : c.Lists h
  async : ∀ a, (c.agent a).listedAsync =
    h.listing.countP fun e => e.agent = a && e.asynchronous
  record : ∀ a v w, (c.agent a).record v = some w →
    w < h.next ∧ (c.waiter w).agent = a ∧ (c.waiter w).asynchronous = true
  agents : ∀ e ∈ h.listing, e.agent < c.nextAgent
  waits : ∀ a w, (c.agent a).phase.waiter = some w →
    w < h.next ∧ (c.waiter w).asynchronous = false

/-! ## Operations that leave the waiters alone -/

/-- The waiters are as they were. Records and blocking waiters may have been dropped. -/
structure SameWaits (c c' : Cluster B V M) : Prop where
  waiter : c'.waiter = c.waiter
  waitersHead : c'.waitersHead = c.waitersHead
  waitersTail : c'.waitersTail = c.waitersTail
  nextWaiter : c'.nextWaiter = c.nextWaiter
  nextAgent : c'.nextAgent = c.nextAgent
  async : ∀ x, (c'.agent x).listedAsync = (c.agent x).listedAsync
  record : ∀ x v w, (c'.agent x).record v = some w → (c.agent x).record v = some w
  waits : ∀ x w, (c'.agent x).phase.waiter = some w → (c.agent x).phase.waiter = some w

lemma SameWaits.refl (c : Cluster B V M) : SameWaits c c := by
  constructor <;> intros <;> first | rfl | assumption

lemma SameWaits.trans {c'' : Cluster B V M} (h₁ : SameWaits c c') (h₂ : SameWaits c' c'') :
    SameWaits c c'' where
  waiter := h₂.waiter.trans h₁.waiter
  waitersHead := h₂.waitersHead.trans h₁.waitersHead
  waitersTail := h₂.waitersTail.trans h₁.waitersTail
  nextWaiter := h₂.nextWaiter.trans h₁.nextWaiter
  nextAgent := h₂.nextAgent.trans h₁.nextAgent
  async x := (h₂.async x).trans (h₁.async x)
  record x v w hrecord := h₁.record x v w (h₂.record x v w hrecord)
  waits x w hwaits := h₁.waits x w (h₂.waits x w hwaits)

/-- One agent in another state. -/
lemma SameWaits.of_setAgent {f : Agent V M → Agent V M}
    (hasync : (f (c.agent a)).listedAsync = (c.agent a).listedAsync)
    (hrecord : ∀ v w, (f (c.agent a)).record v = some w → (c.agent a).record v = some w)
    (hwaits : ∀ w, (f (c.agent a)).phase.waiter = some w → (c.agent a).phase.waiter = some w) :
    SameWaits c (c.setAgent a f) := by
  constructor
  case async =>
    intro x
    by_cases hx : x = a
    · rw [hx, setAgent_agent, if_pos rfl, hasync]
    · rw [setAgent_agent, if_neg hx]
  case record =>
    intro x v w
    by_cases hx : x = a
    · rw [hx, setAgent_agent, if_pos rfl]
      exact hrecord v w
    · rw [setAgent_agent, if_neg hx]
      exact id
  case waits =>
    intro x w
    by_cases hx : x = a
    · rw [hx, setAgent_agent, if_pos rfl]
      exact hwaits w
    · rw [setAgent_agent, if_neg hx]
      exact id
  all_goals rfl

/-- Only the other parts of the cluster change. -/
lemma SameWaits.of_agent (hagent : c'.agent = c.agent) (hwaiter : c'.waiter = c.waiter)
    (hhead : c'.waitersHead = c.waitersHead) (htail : c'.waitersTail = c.waitersTail)
    (hnext : c'.nextWaiter = c.nextWaiter) (hnextAgent : c'.nextAgent = c.nextAgent) :
    SameWaits c c' where
  waiter := hwaiter
  waitersHead := hhead
  waitersTail := htail
  nextWaiter := hnext
  nextAgent := hnextAgent
  async x := by rw [hagent]
  record x v w := by rw [hagent]; exact id
  waits x w := by rw [hagent]; exact id

lemma Cluster.Lists.congr (hl : c.Lists h) (hwaiter : c'.waiter = c.waiter)
    (hhead : c'.waitersHead = c.waitersHead) (htail : c'.waitersTail = c.waitersTail)
    (hnext : c'.nextWaiter = c.nextWaiter) : c'.Lists h where
  next := hnext.trans hl.next
  chain := by
    rw [hwaiter, hhead]
    exact hl.chain
  tail := htail.trans hl.tail
  sorted := hl.sorted
  lt := hl.lt
  data := by
    rw [hwaiter]
    exact hl.data
  listed := by
    rw [hwaiter]
    exact hl.listed
  notified := by
    rw [hwaiter]
    exact hl.notified
  counted := hl.counted
  countedOnce := hl.countedOnce

lemma Cluster.Waits.congr (hw : c.Waits h) (hs : SameWaits c c') : c'.Waits h where
  lists := hw.lists.congr hs.waiter hs.waitersHead hs.waitersTail hs.nextWaiter
  async x := (hs.async x).trans (hw.async x)
  record x v w hrecord := by
    rw [hs.waiter]
    exact hw.record x v w (hs.record x v w hrecord)
  agents e he := by
    rw [hs.nextAgent]
    exact hw.agents e he
  waits x w hwaits := by
    rw [hs.waiter]
    exact hw.waits x w (hs.waits x w hwaits)

lemma agentSignal_sameWaits : SameWaits c (agentSignal c a) := by
  unfold agentSignal
  by_cases hcontext : (c.agent a).hasContext = true
  · rw [if_pos hcontext]
    exact .of_setAgent rfl (fun _ _ => id) fun _ => id
  · rw [if_neg hcontext]
    exact .refl c

lemma readyPush_sameWaits : SameWaits c (readyPush c a) := by
  have hfirst : SameWaits c (c.setAgent a fun agent => { agent with readyNext := none }) :=
    .of_setAgent rfl (fun _ _ => id) fun _ => id
  cases htail : c.readyTail with
  | none =>
    rw [readyPush_of_none htail]
    exact hfirst.trans (.of_agent rfl rfl rfl rfl rfl rfl)
  | some tail =>
    rw [readyPush_of_some htail]
    have hsecond : SameWaits (c.setAgent a fun agent => { agent with readyNext := none })
        ((c.setAgent a fun agent => { agent with readyNext := none }).setAgent tail
          fun agent => { agent with readyNext := some a }) :=
      .of_setAgent rfl (fun _ _ => id) fun _ => id
    exact (hfirst.trans hsecond).trans (.of_agent rfl rfl rfl rfl rfl rfl)

lemma readyPop_sameWaits : SameWaits c (readyPop c).2 := by
  unfold readyPop
  cases c.readyHead with
  | none => exact .refl c
  | some a =>
    have hset : ∀ c₁ : Cluster B V M, SameWaits c₁
        (c₁.setAgent a fun agent => { agent with readyNext := none }) := fun c₁ =>
      .of_setAgent rfl (fun _ _ => id) fun _ => id
    refine .trans ?_ (hset _)
    exact .of_agent rfl rfl rfl rfl rfl rfl

lemma clusterDispatch_sameWaits : SameWaits c (clusterDispatch c) := by
  unfold clusterDispatch
  cases c.running with
  | some _ => exact .refl c
  | none =>
    have hpop := @readyPop_sameWaits _ _ _ c
    cases hready : readyPop c with
    | mk popped c₁ =>
      rw [hready] at hpop
      cases popped with
      | none => exact hpop
      | some a =>
        have hrun : SameWaits c₁ (c₁.setAgent a fun agent => { agent with state := .running }) :=
          .of_setAgent rfl (fun _ _ => id) fun _ => id
        refine (hpop.trans hrun).trans (.trans ?_ agentSignal_sameWaits)
        exact .of_agent rfl rfl rfl rfl rfl rfl

lemma agentMakeReady_sameWaits : SameWaits c (agentMakeReady c a) := by
  unfold agentMakeReady
  by_cases hst : (c.agent a).state = .blocked
  · rw [if_pos hst]
    have hset : SameWaits c (c.setAgent a fun agent =>
        { agent with state := .ready, hasDeadline := false, wakesOnWork := false }) :=
      .of_setAgent rfl (fun _ _ => id) fun _ => id
    exact (hset.trans readyPush_sameWaits).trans clusterDispatch_sameWaits
  · rw [if_neg hst]
    exact .refl c

lemma clusterCheckProgress_sameWaits : SameWaits c (clusterCheckProgress c) := by
  unfold clusterCheckProgress
  simp only
  split
  · exact .refl c
  · split
    · exact .refl c
    · split
      · exact .refl c
      · split
        · exact agentMakeReady_sameWaits
        · exact .of_agent rfl rfl rfl rfl rfl rfl

lemma broadcastTaken_sameWaits : SameWaits c (broadcastTaken c) := by
  unfold broadcastTaken
  by_cases hpos : 0 < c.broadcastRemaining
  · rw [if_pos hpos]
    have hset : SameWaits c { c with broadcastRemaining := c.broadcastRemaining - 1 } :=
      .of_agent rfl rfl rfl rfl rfl rfl
    by_cases hzero : c.broadcastRemaining - 1 = 0
    · simp only [hzero, if_true] at hset ⊢
      exact hset.trans agentMakeReady_sameWaits
    · simp only [hzero, if_false]
      exact hset
  · rw [if_neg hpos]
    exact .refl c

lemma discardBroadcasts_sameWaits {messages : List M} :
    SameWaits c (messages.foldl (fun c _ => broadcastTaken c) c) := by
  induction messages generalizing c with
  | nil => exact .refl c
  | cons message rest ih => exact broadcastTaken_sameWaits.trans ih

lemma deliver_sameWaits {message : M} {agents : List AgentRef} {allocations : ℕ} :
    SameWaits c (deliver message agents allocations c).2 := by
  induction agents generalizing allocations c with
  | nil => exact .refl c
  | cons x rest ih =>
    unfold deliver
    by_cases hfin : (c.agent x).state = .finished
    · rw [if_pos hfin]
      exact ih
    rw [if_neg hfin]
    cases allocations with
    | zero => exact .refl c
    | succ allocations =>
      have hset : SameWaits c (c.setAgent x fun agent =>
          { agent with broadcasts := agent.broadcasts ++ [message] }) :=
        .of_setAgent rfl (fun _ _ => id) fun _ => id
      simp only
      split
      · exact (hset.trans agentMakeReady_sameWaits).trans ih
      · exact hset.trans ih

lemma agentReceive_sameWaits [DecidableEq V] : SameWaits c (agentReceive c a).2 := by
  unfold agentReceive
  split
  · dsimp only
    refine .of_setAgent rfl (fun v w => ?_) fun _ => id
    split
    · exact id
    · next v' _ => by_cases hv : v = v' <;> simp [hv]
  · split
    · split
      · exact .refl c
      · refine .trans ?_ broadcastTaken_sameWaits
        exact .of_setAgent rfl (fun _ _ => id) fun _ => id
    · exact .refl c

/-- Giving up the turn leaves the waiters alone, whatever the thread waits for. -/
lemma blocked_dispatched_sameWaits (hasDeadline : Bool) (deadline : ℕ) (wakesOnWork : Bool)
    (waiter : Option WaiterRef) :
    SameWaits (c.blocked self hasDeadline deadline wakesOnWork waiter)
      (agentBlock c self hasDeadline deadline wakesOnWork waiter) := by
  rw [agentBlock_eq]
  cases hasDeadline with
  | true => exact clusterDispatch_sameWaits
  | false => exact clusterDispatch_sameWaits.trans clusterCheckProgress_sameWaits

/-- Blocking without a waiter. -/
lemma agentBlock_sameWaits (hasDeadline : Bool) (deadline : ℕ) (wakesOnWork : Bool) :
    SameWaits c (agentBlock c self hasDeadline deadline wakesOnWork none) := by
  refine .trans ?_ (blocked_dispatched_sameWaits hasDeadline deadline wakesOnWork none)
  have hset : SameWaits c (c.setAgent self fun agent =>
      { agent with
        state := .blocked
        hasDeadline := hasDeadline
        wakesOnWork := wakesOnWork
        phase := .checking none deadline }) :=
    .of_setAgent rfl (fun _ _ => id) nofun
  exact hset.trans (.of_agent rfl rfl rfl rfl rfl rfl)

/-- Blocking with a waiter that is not asynchronous. -/
lemma Cluster.Waits.block (hw : c.Waits h) (hlt : w < h.next)
    (hsync : (c.waiter w).asynchronous = false) (hasDeadline : Bool) (deadline : ℕ)
    (wakesOnWork : Bool) :
    (agentBlock c self hasDeadline deadline wakesOnWork (some w)).Waits h := by
  suffices hblocked : (c.blocked self hasDeadline deadline wakesOnWork (some w)).Waits h from
    hblocked.congr (blocked_dispatched_sameWaits hasDeadline deadline wakesOnWork (some w))
  constructor
  case lists => exact hw.lists.congr rfl rfl rfl rfl
  case agents => exact hw.agents
  case async =>
    intro x
    rw [← hw.async x]
    by_cases hx : x = self <;> simp [Cluster.blocked, hx]
  case record =>
    intro x v
    have := hw.record x v
    by_cases hx : x = self
    · subst hx
      simpa [Cluster.blocked] using this
    · simpa [Cluster.blocked, hx] using this
  case waits =>
    intro x w'
    by_cases hx : x = self
    · intro heq
      have : w = w' := by simpa [Cluster.blocked, hx, Phase.waiter] using heq
      rw [← this]
      exact ⟨hlt, hsync⟩
    · have := hw.waits x w'
      simpa [Cluster.blocked, hx] using this

/-! ## Operations on the list -/

lemma Cluster.Lists.mem_refs (hl : c.Lists h) (hlisted : (c.waiter w).listed = true) :
    ∃ e ∈ h.listing, e.w = w := List.mem_map.mp ((hl.listed w).mp hlisted)

lemma remove_middle {e : Listing B} {l₁ l₂ : List (Listing B)}
    (hsplit : h.listing = l₁ ++ e :: l₂) (hnodup : ((l₁ ++ e :: l₂).map Listing.w).Nodup) :
    (h.remove e.w).listing = l₁ ++ l₂ := by
  rw [map_append, map_cons] at hnodup
  obtain ⟨-, h₁, h₂, -⟩ := nodup_middle hnodup
  show h.listing.filter _ = _
  rw [hsplit, filter_append, filter_cons_of_neg (by simp), filter_eq_self.mpr,
    filter_eq_self.mpr]
  · intro x hx
    simpa using fun heq : x.w = e.w => h₂ (heq ▸ mem_map_of_mem hx)
  · intro x hx
    simpa using fun heq : x.w = e.w => h₁ (heq ▸ mem_map_of_mem hx)

/-- An entry more or less in a count. -/
lemma Cluster.Lists.countP_remove (hl : c.Lists h) {e : Listing B} (he : e ∈ h.listing)
    (p : Listing B → Bool) :
    h.listing.countP p = (h.remove e.w).listing.countP p + if p e then 1 else 0 := by
  obtain ⟨l₁, l₂, hsplit⟩ := append_of_mem he
  have hnodup : ((l₁ ++ e :: l₂).map Listing.w).Nodup := hsplit ▸ hl.nodup
  have hremove := remove_middle hsplit hnodup
  rw [hremove, hsplit, countP_append, countP_append, countP_cons]
  omega

/-- The waiters with one entry less, and the agents as they were but for counts and records. -/
lemma Cluster.Waits.remove (hw : c.Waits h) {c₁ : Cluster B V M} {l₁ l₂ : List WaiterRef}
    (hrefs : h.refs = l₁ ++ w :: l₂) (hr : Removes c c₁ l₁ w)
    (hsame : c'.waiter = c₁.waiter ∧ c'.waitersHead = c₁.waitersHead ∧
      c'.waitersTail = c₁.waitersTail ∧ c'.nextWaiter = c₁.nextWaiter ∧
      c'.nextAgent = c₁.nextAgent)
    (hasync : ∀ x, (c'.agent x).listedAsync =
      (h.remove w).listing.countP fun e => e.agent = x && e.asynchronous)
    (hrecord : ∀ x v w, (c'.agent x).record v = some w → (c.agent x).record v = some w)
    (hwaits : ∀ x w, (c'.agent x).phase.waiter = some w → (c.agent x).phase.waiter = some w) :
    c'.Waits (h.remove w) := by
  obtain ⟨hwaiter, hhead, htail, hnext, hnextAgent⟩ := hsame
  have hdata : ∀ x, (c'.waiter x).agent = (c.waiter x).agent ∧
      (c'.waiter x).asynchronous = (c.waiter x).asynchronous := by
    intro x
    have heq := data_eq (hr.data x)
    rw [hwaiter]
    exact ⟨heq.1, heq.2.2.2.2⟩
  constructor
  case lists => exact (hw.lists.remove hrefs hr).congr hwaiter hhead htail hnext
  case async => exact hasync
  case record =>
    intro x v w' hx
    rw [(hdata w').1, (hdata w').2]
    exact hw.record x v w' (hrecord x v w' hx)
  case agents =>
    intro e he
    rw [hnextAgent, hr.nextAgent]
    exact hw.agents e (mem_of_mem_filter he)
  case waits =>
    intro x w' hx
    rw [(hdata w').2]
    exact hw.waits x w' (hwaits x w' hx)

/-- A blocking waiter that leaves the list. -/
lemma Cluster.Waits.removeSync (hw : c.Waits h) {l₁ l₂ : List WaiterRef}
    (hrefs : h.refs = l₁ ++ w :: l₂) (hr : Removes c c' l₁ w)
    (hsync : (c.waiter w).asynchronous = false) : c'.Waits (h.remove w) := by
  obtain ⟨e, he, rfl⟩ : ∃ e ∈ h.listing, e.w = w :=
    mem_map.mp (show w ∈ h.refs by rw [hrefs]; simp)
  refine hw.remove hrefs hr ⟨rfl, rfl, rfl, rfl, rfl⟩ (fun x => ?_) ?_ ?_
  · rw [hr.agent, hw.async, hw.lists.countP_remove he, if_neg, Nat.add_zero]
    rw [← (hw.lists.data e he).2.2.2, hsync]
    simp
  all_goals
    rw [hr.agent]
    exact fun _ _ => by simp

/-- An asynchronous waiter that leaves the list. Its agent counts one less. -/
lemma Cluster.Waits.removeAsync (hw : c.Waits h) {c₁ : Cluster B V M} {l₁ l₂ : List WaiterRef}
    (hrefs : h.refs = l₁ ++ w :: l₂) (hr : Removes c c₁ l₁ w)
    (hasync : (c.waiter w).asynchronous = true) {f : Agent V M → Agent V M}
    (hcount : ∀ agent, (f agent).listedAsync = agent.listedAsync - 1)
    (hrecord : ∀ agent v w, (f agent).record v = some w → agent.record v = some w)
    (hphase : ∀ agent, (f agent).phase = agent.phase) :
    (c₁.setAgent (c.waiter w).agent f).Waits (h.remove w) := by
  obtain ⟨e, he, rfl⟩ : ∃ e ∈ h.listing, e.w = w :=
    mem_map.mp (show w ∈ h.refs by rw [hrefs]; simp)
  obtain ⟨hagent, -, -, hasync'⟩ := hw.lists.data e he
  rw [hasync] at hasync'
  rw [hagent]
  refine hw.remove hrefs hr ⟨rfl, rfl, rfl, rfl, rfl⟩ (fun x => ?_) (fun x v w' => ?_)
    fun x w' => ?_
  · have hremove := hw.lists.countP_remove he fun e => e.agent = x && e.asynchronous
    rw [← hw.async x] at hremove
    by_cases hx : x = e.agent
    · rw [hx, setAgent_agent, if_pos rfl, hcount, hr.agent]
      rw [hx] at hremove
      rw [hremove]
      simp [← hasync']
    · have hx' : e.agent ≠ x := Ne.symm hx
      rw [setAgent_agent, if_neg hx, hr.agent, hremove]
      simp [hx']
  · rw [setAgent_agent]
    split
    · next heq =>
      rw [heq, ← hr.agent]
      exact hrecord _ v w'
    · rw [hr.agent]
      exact id
  · rw [setAgent_agent]
    split
    · next heq =>
      rw [heq, hphase, hr.agent]
      exact id
    · rw [hr.agent]
      exact id

/-- The walk of a notification finds the first entry of the block and byte index. -/
lemma findWaiter_eq [DecidableEq B] {block : B} {byteIndex : ℕ} {l : List (Listing B)} {fuel : ℕ}
    {head : Option WaiterRef}
    (hchain : Chain (fun w => (c.waiter w).next) head (l.map Listing.w) none)
    (hdata : ∀ e ∈ l, (c.waiter e.w).block = e.block ∧ (c.waiter e.w).byteIndex = e.byteIndex)
    (hfuel : l.length ≤ fuel) :
    findWaiter c block byteIndex fuel head =
      some ((l.find? fun e => e.block = block ∧ e.byteIndex = byteIndex).map Listing.w) := by
  induction l generalizing fuel head with
  | nil =>
    rw [show head = none from hchain]
    unfold findWaiter
    rfl
  | cons e l ih =>
    obtain ⟨hblock, hbyte⟩ := hdata e mem_cons_self
    rw [hchain.1]
    unfold findWaiter
    rw [hblock, hbyte, find?_cons]
    by_cases heq : e.block = block ∧ e.byteIndex = byteIndex
    · rw [if_pos heq]
      simp [heq]
    · rw [if_neg heq]
      obtain _ | fuel := fuel
      · cases hfuel
      simp only [heq, decide_false]
      exact ih hchain.2 (fun e he => hdata e (mem_cons_of_mem _ he)) (by simpa using hfuel)

/-- Counting a waiter that has left the list. -/
lemma Cluster.Lists.count (hl : c.Lists h) (hnot : w ∉ h.refs) (hlt : w < h.next)
    (hnew : w ∉ h.counted) :
    (c.setWaiter w fun entry => { entry with notified := true }).Lists
      { h with counted := h.counted ++ [w] } := by
  have hsame : ∀ x, ((c.setWaiter w fun entry => { entry with notified := true }).waiter x) =
      { c.waiter x with notified := if x = w then true else (c.waiter x).notified } := by
    intro x
    rw [setWaiter_waiter]
    by_cases hx : x = w <;> simp [hx]
  constructor
  case next => exact hl.next
  case chain => exact hl.chain.congr fun x _ => by rw [hsame]
  case tail => exact hl.tail
  case sorted => exact hl.sorted
  case lt => exact hl.lt
  case data =>
    intro e he
    rw [hsame]
    exact hl.data e he
  case listed =>
    intro x
    rw [hsame]
    exact hl.listed x
  case notified =>
    intro x
    rw [hsame, mem_append, mem_singleton, ← hl.notified x]
    by_cases hx : x = w <;> simp [hx]
  case counted =>
    intro x hx
    rw [mem_append, mem_singleton] at hx
    rcases hx with hx | rfl
    · exact hl.counted x hx
    · exact ⟨hnot, hlt⟩
  case countedOnce =>
    rw [nodup_append]
    refine ⟨hl.countedOnce, by simp, fun x hx y hy hxy => ?_⟩
    rw [mem_singleton.mp hy] at hxy
    exact hnew (hxy ▸ hx)

lemma Cluster.Waits.count (hw : c.Waits h) (hnot : w ∉ h.refs) (hlt : w < h.next)
    (hnew : w ∉ h.counted) :
    (c.setWaiter w fun entry => { entry with notified := true }).Waits
      { h with counted := h.counted ++ [w] } := by
  constructor
  case lists => exact hw.lists.count hnot hlt hnew
  case async => exact hw.async
  case agents => exact hw.agents
  case record =>
    intro x v w' hx
    have := hw.record x v w' hx
    rw [setWaiter_waiter]
    split
    · next heq =>
      rw [heq] at this
      exact heq ▸ this
    · exact this
  case waits =>
    intro x w' hx
    have := hw.waits x w' hx
    rw [setWaiter_waiter]
    split
    · next heq =>
      rw [heq] at this
      exact heq ▸ this
    · exact this

end Oseo.AgentCluster
