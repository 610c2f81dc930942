import Oseo.RuntimeMemory.FinalizationRegistration
import Mathlib.Data.List.Induction

/-!
# Scheduling cleanups

After tracing, a collection forgets dead tokens and appends the cells whose targets died to
the cleanup queue, sorted by registration.
-/

namespace Oseo.RuntimeMemory

open List
open Oseo.Library

variable {T : Type} {s s' : Finalizations T} {h : FinalizationHistory T}
  {chains : RegistryRef → List CellRef} {queue : List CellRef} {m : Marking T}

/-! ## What is marked -/

/-- The marks hold the chains of marked registries and the queue. -/
structure Marking.Covers (m : Marking T) (s : Finalizations T)
    (chains : RegistryRef → List CellRef) (queue : List CellRef) : Prop where
  chain : ∀ r ∈ s.registries, m.registry r = true → ∀ c ∈ chains r, m.cell c = true
  queue : ∀ c ∈ queue, m.cell c = true
  registry : ∀ c ∈ s.cells, m.cell c = true → m.registry (s.cell c).registry = true

/-- Marks that follow a link follow the whole chain. -/
lemma marked_of_chain {next : CellRef → Option CellRef} {marked : CellRef → Bool}
    {head : Option CellRef} {l : List CellRef} (hchain : Chain next head l none)
    (hhead : ∀ c, head = some c → marked c = true)
    (hnext : ∀ c d, marked c = true → next c = some d → marked d = true) :
    ∀ c ∈ l, marked c = true := by
  induction l generalizing head with
  | nil => exact fun c hc => absurd hc not_mem_nil
  | cons c l ih =>
    have hc := hhead c hchain.1
    intro d hd
    rcases mem_cons.mp hd with rfl | hd
    · exact hc
    · exact ih hchain.2 (hnext c · hc) d hd

lemma Marking.Closed.covers (hm : m.Closed s) (ht : s.Tracks h chains queue) :
    m.Covers s chains queue where
  chain := fun r hr hmr => marked_of_chain (ht.chain r hr) (hm.cellHead r · hmr) hm.next
  queue := marked_of_chain ht.queueChain hm.head hm.queueNext
  registry := fun c _ hc => hm.cellRegistry c hc

/-- A live cell is marked as its registry is. -/
lemma Marking.Covers.live (hm : m.Covers s chains queue) (ht : s.Tracks h chains queue)
    {c : CellRef} (hc : c ∈ s.cells) (hlive : s.isLive c = true) :
    m.cell c = m.registry (s.cell c).registry := by
  rw [Bool.eq_iff_iff]
  constructor
  · exact hm.registry c hc
  · exact fun hr => hm.chain _ (ht.owner c hc) hr c (ht.chained c hc hlive)

/-! ## Dead tokens -/

/-- The registry of an open registration. -/
def RegistrationStatus.isMarked (m : Marking T) : RegistrationStatus T → Bool
  | .watching registry _ _ _ => m.registry registry
  | .due _ registry _ _ => m.registry registry
  | _ => false

/-- Forgets the dead tokens of marked registries. -/
def FinalizationHistory.clearTokens (m : Marking T) (h : FinalizationHistory T) :
    FinalizationHistory T :=
  { h with
    status := fun i =>
      if (h.status i).isMarked m then (h.status i).clearToken m else h.status i }

/-- What forgetting the dead tokens of some cells changes. -/
structure ClearsTokens (m : Marking T) (cleared : List CellRef) (s s' : Finalizations T) :
    Prop extends SameLinks s s' where
  pending : s'.finalizationPendingCount = s.finalizationPendingCount
  cell : ∀ c, s'.cell c =
    { s.cell c with
      unregisterToken :=
        if c ∈ cleared ∧ m.cell c = true then (s.cell c).unregisterToken.clearDead m.object
        else (s.cell c).unregisterToken }

lemma SameLinks.refl (s : Finalizations T) : SameLinks s s := by
  constructor <;> intros <;> rfl

lemma SameLinks.trans {s'' : Finalizations T} (h : SameLinks s s') (h' : SameLinks s' s'') :
    SameLinks s s'' where
  cells := h'.cells.trans h.cells
  registries := h'.registries.trans h.registries
  registry := h'.registry.trans h.registry
  head := h'.head.trans h.head
  tail := h'.tail.trans h.tail
  nextOrder := h'.nextOrder.trans h.nextOrder
  next := fun c => (h'.next c).trans (h.next c)
  queueNext := fun c => (h'.queueNext c).trans (h.queueNext c)
  owner := fun c => (h'.owner c).trans (h.owner c)
  order := fun c => (h'.order c).trans (h.order c)
  queued := fun c => (h'.queued c).trans (h.queued c)

lemma HeapValue.clearDead_clearDead (marked : T → Bool) (v : HeapValue T) :
    (v.clearDead marked).clearDead marked = v.clearDead marked := by
  cases v with
  | immediate bits => rfl
  | heap object =>
    by_cases hm : marked object = true
    · have : (HeapValue.heap object).clearDead marked = .heap object := by
        simp [HeapValue.clearDead, HeapValue.isDead, hm]
      rw [this, this]
    · simp [HeapValue.clearDead, HeapValue.isDead, hm, HeapValue.undefined]

/-- Forgetting the dead token of one cell. -/
lemma clearDeadToken_clears (m : Marking T) (s : Finalizations T) (c : CellRef) :
    ClearsTokens m [c] s (clearDeadToken m s c) := by
  have hlinks := @setCell_sameLinks _ s c
    (fun cell => { cell with unregisterToken := .undefined }) rfl rfl rfl rfl rfl
    s.finalizationPendingCount
  unfold clearDeadToken
  split
  · next hdead =>
    refine ⟨hlinks, rfl, fun d => ?_⟩
    rw [setCell_cell, HeapValue.clearDead]
    by_cases hdc : d = c
    · rw [hdc, if_pos rfl, if_pos ⟨mem_singleton_self c, hdead.1⟩, if_pos hdead.2]
    · rw [if_neg hdc, if_neg (by simp [hdc])]
  · next hlive =>
    refine ⟨.refl s, rfl, fun d => ?_⟩
    rw [HeapValue.clearDead]
    by_cases hdc : d = c
    · rw [hdc]
      by_cases hm : m.cell c = true
      · rw [if_neg fun hdead => hlive ⟨hm, hdead⟩]
        simp
      · rw [if_neg (by simp [hm])]
    · rw [if_neg (by simp [hdc])]

lemma clearDeadTokens_clears (m : Marking T) (l : List CellRef) (s : Finalizations T) :
    ClearsTokens m l s (l.foldl (clearDeadToken m) s) := by
  induction l using reverseRecOn with
  | nil => exact ⟨.refl s, rfl, fun c => by simp⟩
  | append_singleton l c ih =>
    rw [foldl_concat]
    have hc := clearDeadToken_clears m (l.foldl (clearDeadToken m) s) c
    refine ⟨ih.toSameLinks.trans hc.toSameLinks, hc.pending.trans ih.pending, fun d => ?_⟩
    rw [hc.cell, ih.cell]
    by_cases hdl : d ∈ l <;> by_cases hdc : d = c <;> by_cases hmd : m.cell d = true <;>
      simp_all [HeapValue.clearDead_clearDead]

lemma ClearsTokens.isLive {cleared : List CellRef} (hu : ClearsTokens m cleared s s')
    (c : CellRef) : s'.isLive c = s.isLive c := by
  unfold Finalizations.isLive
  rw [hu.cell c]

@[simp] lemma RegistrationStatus.isOpen_clearToken (status : RegistrationStatus T) :
    (status.clearToken m).isOpen = status.isOpen := by
  cases status <;> rfl

@[simp] lemma RegistrationStatus.batch_clearToken (status : RegistrationStatus T) :
    (status.clearToken m).batch = status.batch := by
  cases status <;> rfl

lemma FinalizationHistory.clearTokens_isOpen (h : FinalizationHistory T) (i : ℕ) :
    ((h.clearTokens m).status i).isOpen = (h.status i).isOpen := by
  show (if _ then _ else _ : RegistrationStatus T).isOpen = _
  split
  · rw [RegistrationStatus.isOpen_clearToken]
  · rfl

lemma FinalizationHistory.clearTokens_batch (h : FinalizationHistory T) (i : ℕ) :
    ((h.clearTokens m).status i).batch = (h.status i).batch := by
  show (if _ then _ else _ : RegistrationStatus T).batch = _
  split
  · rw [RegistrationStatus.batch_clearToken]
  · rfl

/-- Forgetting dead tokens keeps the invariant: the marked cells are those of marked
registries. -/
lemma Finalizations.Tracks.clearTokens (ht : s.Tracks h chains queue)
    (hm : m.Covers s chains queue) (hu : ClearsTokens m s.cells s s') :
    s'.Tracks (h.clearTokens m) chains queue ∧ m.Covers s' chains queue := by
  refine ⟨?_, ?_, hm.queue, ?_⟩
  · apply Finalizations.Tracks.relabel ht hu.toSameLinks
    case hregistrations => rfl
    case hlive =>
      intro c hlive
      rwa [hu.isLive] at hlive
    case hstatus =>
      intro c hc
      have hs := ht.status c hc
      rw [hu.cell c]
      show FinalizationCell.HasStatus _ (if _ then _ else _)
      unfold FinalizationCell.HasStatus at hs ⊢
      by_cases hp : (s.cell c).processed = true
      · rw [if_pos hp] at hs ⊢
        rw [hs]
        simp [RegistrationStatus.isMarked]
      · have hmark := hm.live ht hc (by simpa [Finalizations.isLive] using hp)
        have htoken : (if c ∈ s.cells ∧ m.cell c = true then
            (s.cell c).unregisterToken.clearDead m.object else (s.cell c).unregisterToken) =
            if m.cell c = true then (s.cell c).unregisterToken.clearDead m.object
            else (s.cell c).unregisterToken := by
          simp only [hc, true_and]
        rw [if_neg hp] at hs ⊢
        split at hs
        · next hq =>
          obtain ⟨b, hb⟩ := hs
          rw [if_pos hq, hb]
          refine ⟨b, ?_⟩
          show (if m.registry _ = true then _ else _) = _
          rw [← hmark, htoken]
          split <;> rfl
        · next hq =>
          obtain ⟨t, htarget, hb⟩ := hs
          rw [if_neg hq, hb]
          refine ⟨t, htarget, ?_⟩
          show (if m.registry _ = true then _ else _) = _
          rw [← hmark, htoken]
          split <;> rfl
    case htracked =>
      intro i hi
      rw [h.clearTokens_isOpen] at hi
      obtain ⟨c, hc, hci, hlive⟩ := ht.tracked i hi
      exact ⟨c, hc, hci, by rw [hu.isLive, hlive]⟩
    case habsent =>
      intro i hi
      show (if _ then _ else _) = _
      rw [ht.absent i hi]
      rfl
    case hbatch =>
      intro i b r holdings token hi
      have hopen := h.clearTokens_isOpen (m := m) i
      have hb := h.clearTokens_batch (m := m) i
      rw [hi] at hopen hb
      cases hst : h.status i with
      | due b' r' holdings' token' =>
        rw [hst] at hb
        have hlt := ht.batch i b' r' holdings' token' hst
        show b < h.collections
        have : b = b' := hb
        omega
      | _ =>
        have heq : (h.clearTokens m).status i = h.status i ∨ (h.clearTokens m).status i =
            (h.status i).clearToken m := by
          show (if _ then _ else _) = _ ∨ (if _ then _ else _) = _
          split
          · exact .inr rfl
          · exact .inl rfl
        rw [hst, hi] at heq
        rcases heq with heq | heq <;> cases heq
    case hsorted =>
      intro c _ d _ _ _ hbefore
      unfold FinalizationHistory.Before at hbefore ⊢
      rw [h.clearTokens_batch, h.clearTokens_batch]
      exact hbefore
    case hpending =>
      rw [hu.pending, ht.pending]
      apply countP_congr
      intro c _
      rw [hu.isLive]
  · intro r hr
    rw [hu.registries] at hr
    exact hm.chain r hr
  · intro c hc
    rw [hu.cells] at hc
    rw [hu.owner]
    exact hm.registry c hc

/-! ## Candidates -/

lemma mem_insertCandidate (s : Finalizations T) (c d : CellRef) (l : List CellRef) :
    d ∈ insertCandidate s c l ↔ d = c ∨ d ∈ l := by
  induction l with
  | nil => simp [insertCandidate]
  | cons e l ih =>
    rw [insertCandidate]
    split
    · rw [mem_cons, ih, mem_cons]
      tauto
    · rw [mem_cons]

lemma insertCandidate_sorted {c : CellRef} {l : List CellRef}
    (hl : l.Pairwise fun d e => s.order d < s.order e) (hc : ∀ d ∈ l, s.order d ≠ s.order c) :
    (insertCandidate s c l).Pairwise fun d e => s.order d < s.order e := by
  induction l with
  | nil => exact pairwise_singleton _ _
  | cons d l ih =>
    rw [pairwise_cons] at hl
    have hdc := hc d mem_cons_self
    rw [insertCandidate]
    split
    · next hlt =>
      rw [pairwise_cons]
      refine ⟨fun e he => ?_, ih hl.2 fun e he => hc e (mem_cons_of_mem _ he)⟩
      rcases (mem_insertCandidate s c e l).mp he with rfl | he
      · exact hlt
      · exact hl.1 e he
    · next hge =>
      have hlt : s.order c < s.order d := by
        show (s.cell c).registrationOrder < (s.cell d).registrationOrder
        have : (s.cell d).registrationOrder ≠ (s.cell c).registrationOrder := hdc
        omega
      rw [pairwise_cons]
      refine ⟨fun e he => ?_, pairwise_cons.mpr hl⟩
      rcases mem_cons.mp he with rfl | he
      · exact hlt
      · exact Nat.lt_trans hlt (hl.1 e he)

/-- The candidates are the cells to schedule, sorted. -/
lemma scheduleCandidates_spec (hnodup : s.cells.Nodup)
    (hinj : ∀ c ∈ s.cells, ∀ d ∈ s.cells, s.order c = s.order d → c = d) :
    (∀ c, c ∈ scheduleCandidates m s ↔ c ∈ s.cells ∧ isCandidate m s c = true) ∧
      (scheduleCandidates m s).Pairwise fun c d => s.order c < s.order d := by
  have hprefix : ∀ l : List CellRef, l.Nodup → (∀ c ∈ l, c ∈ s.cells) →
      (∀ c, c ∈ l.foldl (fun candidates c =>
          if isCandidate m s c then insertCandidate s c candidates else candidates) [] ↔
        c ∈ l ∧ isCandidate m s c = true) ∧
      (l.foldl (fun candidates c =>
          if isCandidate m s c then insertCandidate s c candidates else candidates) []).Pairwise
        fun c d => s.order c < s.order d := by
    intro l
    induction l using reverseRecOn with
    | nil => exact fun _ _ => ⟨fun c => by simp, List.Pairwise.nil⟩
    | append_singleton l c ih =>
      intro hl hsub
      rw [nodup_append] at hl
      obtain ⟨hmem, hsorted⟩ := ih hl.1 fun d hd => hsub d (mem_append_left _ hd)
      rw [foldl_concat]
      split
      · next hcand =>
        refine ⟨fun d => ?_, insertCandidate_sorted hsorted fun d hd heq => ?_⟩
        · rw [mem_insertCandidate, hmem, mem_append, mem_singleton]
          constructor
          · intro hd
            rcases hd with rfl | hd
            · exact ⟨.inr rfl, hcand⟩
            · exact ⟨.inl hd.1, hd.2⟩
          · intro hd
            rcases hd.1 with hl' | hdc
            · exact .inr ⟨hl', hd.2⟩
            · exact .inl hdc
        · have hdl := ((hmem d).mp hd).1
          have hdc := hinj d (hsub d (mem_append_left _ hdl)) c
            (hsub c (mem_append_right _ (mem_singleton_self c))) heq
          exact hl.2.2 d hdl c (mem_singleton_self c) hdc
      · next hcand =>
        refine ⟨fun d => ?_, hsorted⟩
        rw [hmem, mem_append, mem_singleton]
        constructor
        · exact fun hd => ⟨.inl hd.1, hd.2⟩
        · intro hd
          refine ⟨hd.1.resolve_right fun hdc => hcand (hdc ▸ hd.2), hd.2⟩
  exact hprefix s.cells hnodup fun c hc => hc

/-! ## Joining the queue -/

/-- What appending a cell to the queue changes. -/
structure Enqueues (s s' : Finalizations T) (c : CellRef) : Prop where
  cells : s'.cells = s.cells
  registries : s'.registries = s.registries
  registry : s'.registry = s.registry
  nextOrder : s'.nextFinalizationOrder = s.nextFinalizationOrder
  pending : s'.finalizationPendingCount = s.finalizationPendingCount + 1
  head : s'.finalizationHead = if s.finalizationTail = none then some c else s.finalizationHead
  tail : s'.finalizationTail = some c
  cell : s'.cell c = { s.cell c with target := .undefined, queueNext := none, queued := true }
  others : ∀ d, d ≠ c → s'.cell d =
    { s.cell d with
      queueNext := if s.finalizationTail = some d then some c else (s.cell d).queueNext }

lemma enqueueCandidate_enqueues {c : CellRef} (hc : s.finalizationTail ≠ some c) :
    Enqueues s (enqueueCandidate s c) c := by
  unfold enqueueCandidate
  cases htail : s.finalizationTail with
  | none => constructor <;> simp_all
  | some t =>
    have htc : t ≠ c := fun heq => hc (by rw [htail, heq])
    have hct : c ≠ t := Ne.symm htc
    constructor
    case others =>
      intro d hd
      by_cases hdt : d = t
      · simp [htail, hdt, htc]
      · simp [htail, hd, hdt, Ne.symm hdt]
    all_goals simp_all

/-- The history in which one registration becomes due. -/
def FinalizationHistory.schedule (h : FinalizationHistory T) (batch i : ℕ)
    (cell : FinalizationCell T) : FinalizationHistory T :=
  { h with
    status := Function.update h.status i
      (.due batch cell.registry cell.holdings cell.unregisterToken) }

@[simp] lemma FinalizationHistory.schedule_self (h : FinalizationHistory T) (batch i : ℕ)
    (cell : FinalizationCell T) : (h.schedule batch i cell).status i =
      .due batch cell.registry cell.holdings cell.unregisterToken :=
  Function.update_self i _ h.status

lemma FinalizationHistory.schedule_of_ne (h : FinalizationHistory T) {batch i j : ℕ}
    {cell : FinalizationCell T} (hij : i ≠ j) :
    (h.schedule batch j cell).status i = h.status i :=
  Function.update_of_ne hij _ _

/-- Scheduling a live cell behind every cell on the queue. -/
lemma Finalizations.Tracks.enqueue {c : CellRef} {batch : ℕ} (ht : s.Tracks h chains queue)
    (hmem : c ∈ s.cells) (hlive : s.isLive c = true) (hqueued : (s.cell c).queued = false)
    (hbatch : batch < h.collections)
    (hlast : ∀ d ∈ queue, s.isLive d = true → (h.status (s.order d)).batch < batch ∨
      (h.status (s.order d)).batch = batch ∧ s.order d < s.order c)
    (hu : Enqueues s s' c) :
    s'.Tracks (h.schedule batch (s.order c) (s.cell c)) chains (queue ++ [c]) := by
  have hne : ∀ d ∈ s.cells, d ≠ c → s.order d ≠ s.order c := fun d hd hdc heq =>
    hdc (ht.orderInj d hd c hmem heq)
  have hfields : ∀ d, (s'.cell d).next = (s.cell d).next ∧
      (s'.cell d).registry = (s.cell d).registry ∧ s'.order d = s.order d ∧
      s'.isLive d = s.isLive d := by
    intro d
    unfold Finalizations.order Finalizations.isLive
    by_cases hdc : d = c
    · rw [hdc, hu.cell]
      exact ⟨rfl, rfl, rfl, rfl⟩
    · rw [hu.others d hdc]
      exact ⟨rfl, rfl, rfl, rfl⟩
  have hsame : SameChains s s' :=
    ⟨hu.cells, hu.registries, hu.registry, hu.nextOrder, fun d => (hfields d).1,
      fun d => (hfields d).2.1, fun d => (hfields d).2.2.1⟩
  have hlives : ∀ d, s'.isLive d = s.isLive d := fun d => (hfields d).2.2.2
  have hcq : c ∉ queue := by
    intro hcq
    rw [(ht.queueMem c hcq).2] at hqueued
    cases hqueued
  have horder := ht.orderLt c hmem
  apply ht.requeue hsame
  case hregistrations => rfl
  case hlive => exact fun d hd => (hlives d).symm.trans hd
  case hstatus =>
    intro d hd
    by_cases hdc : d = c
    · rw [hdc, h.schedule_self, hu.cell]
      unfold FinalizationCell.HasStatus
      rw [if_neg (by simpa [Finalizations.isLive] using hlive), if_pos rfl]
      exact ⟨batch, rfl⟩
    · rw [h.schedule_of_ne (hne d hd hdc), hu.others d hdc]
      exact ht.status d hd
  case htracked =>
    intro i hi
    by_cases hic : i = s.order c
    · exact ⟨c, hmem, hic.symm, (hlives c).trans hlive⟩
    · rw [h.schedule_of_ne hic] at hi
      obtain ⟨d, hd, hdi, hdlive⟩ := ht.tracked i hi
      exact ⟨d, hd, hdi, (hlives d).trans hdlive⟩
  case habsent =>
    intro i hi
    rw [h.schedule_of_ne (by omega)]
    exact ht.absent i hi
  case hbatch =>
    intro i b r holdings token hi
    by_cases hic : i = s.order c
    · rw [hic, h.schedule_self] at hi
      cases hi
      exact hbatch
    · rw [h.schedule_of_ne hic] at hi
      exact ht.batch i b r holdings token hi
  case hchain =>
    refine ht.queueChain.concat hcq ?_ ?_ (fun d hd => ?_) ht.queueNodup
    · rw [hu.head, ht.queueTail]
    · rw [hu.cell]
    · rw [hu.others d hd, ht.queueTail]
  case htail =>
    rw [hu.tail, lastOr_concat]
  case hnodup =>
    rw [nodup_append]
    refine ⟨ht.queueNodup, pairwise_singleton _ _, fun d hd e he hde => ?_⟩
    rw [mem_singleton.mp he] at hde
    exact hcq (hde ▸ hd)
  case hmem =>
    intro d hd
    rcases mem_append.mp hd with hd | hd
    · rw [hu.others d fun heq => hcq (heq ▸ hd)]
      exact ht.queueMem d hd
    · rw [mem_singleton.mp hd, hu.cell]
      exact ⟨hmem, rfl⟩
  case hqueued =>
    intro d hd hq
    by_cases hdc : d = c
    · exact mem_append_right _ (mem_singleton.mpr hdc)
    · rw [hu.others d hdc] at hq
      exact mem_append_left _ (ht.queuedMem d hd hq)
  case hsorted =>
    have hstatus : ∀ d ∈ queue, (h.schedule batch (s.order c) (s.cell c)).status (s.order d) =
        h.status (s.order d) := fun d hd =>
      h.schedule_of_ne (hne d (ht.queueMem d hd).1 fun heq => hcq (heq ▸ hd))
    simp only [hlives]
    rw [pairwise_append]
    refine ⟨?_, pairwise_singleton _ _, fun d hd e he hdlive _ => ?_⟩
    · refine ht.queueSorted.imp_of_mem fun {d e} hd he hbefore hdlive helive => ?_
      unfold FinalizationHistory.Before
      rw [hstatus d hd, hstatus e he]
      exact hbefore hdlive helive
    · rw [mem_singleton.mp he]
      unfold FinalizationHistory.Before
      rw [hstatus d hd, h.schedule_self]
      exact hlast d hd hdlive
  case hpending =>
    rw [hu.pending, ht.pending, funext hlives, countP_append, countP_singleton, hlive]
    rfl

/-! ## The pass -/

/-- Scheduling a sorted list of cells behind every cell on the queue. -/
lemma enqueueCandidates_tracks {batch : ℕ} {l : List CellRef} (ht : s.Tracks h chains queue)
    (hbatch : batch < h.collections)
    (hl : ∀ c ∈ l, c ∈ s.cells ∧ s.isLive c = true ∧ (s.cell c).queued = false)
    (hsorted : l.Pairwise fun c d => s.order c < s.order d)
    (hlast : ∀ d ∈ queue, s.isLive d = true → (h.status (s.order d)).batch < batch ∨
      (h.status (s.order d)).batch = batch ∧ ∀ c ∈ l, s.order d < s.order c) :
    ∃ h', (l.foldl enqueueCandidate s).Tracks h' chains (queue ++ l) ∧
      h'.registrations = h.registrations ∧ h'.collections = h.collections ∧
      (∀ i, (∀ c ∈ l, s.order c ≠ i) → h'.status i = h.status i) ∧
      (∀ c ∈ l, h'.status (s.order c) =
        .due batch (s.cell c).registry (s.cell c).holdings (s.cell c).unregisterToken) ∧
      (l.foldl enqueueCandidate s).cells = s.cells ∧
      (l.foldl enqueueCandidate s).registries = s.registries ∧
      ∀ c, ((l.foldl enqueueCandidate s).cell c).registry = (s.cell c).registry := by
  induction l generalizing s h queue with
  | nil =>
    refine ⟨h, ?_, rfl, rfl, fun _ _ => rfl, by simp, rfl, rfl, fun _ => rfl⟩
    rw [append_nil]
    exact ht
  | cons c l ih =>
    obtain ⟨hmem, hlive, hqueued⟩ := hl c mem_cons_self
    rw [pairwise_cons] at hsorted
    have htail : s.finalizationTail ≠ some c := by
      rw [ht.queueTail]
      intro heq
      rw [(ht.queueMem c (lastOr_mem heq)).2] at hqueued
      cases hqueued
    have hu := enqueueCandidate_enqueues htail
    have hne : ∀ d ∈ l, d ≠ c := by
      intro d hd hdc
      have := hsorted.1 d hd
      rw [hdc] at this
      exact Nat.lt_irrefl _ this
    have ht₁ := ht.enqueue hmem hlive hqueued hbatch (fun d hd hdlive => by
      rcases hlast d hd hdlive with hlt | ⟨heq, hlt⟩
      · exact Or.inl hlt
      · exact Or.inr ⟨heq, hlt c mem_cons_self⟩) hu
    have hcell : ∀ d ∈ l, (enqueueCandidate s c).order d = s.order d ∧
        (enqueueCandidate s c).isLive d = s.isLive d ∧
        ((enqueueCandidate s c).cell d).queued = (s.cell d).queued ∧
        ((enqueueCandidate s c).cell d).registry = (s.cell d).registry ∧
        ((enqueueCandidate s c).cell d).holdings = (s.cell d).holdings ∧
        ((enqueueCandidate s c).cell d).unregisterToken = (s.cell d).unregisterToken := by
      intro d hd
      unfold Finalizations.order Finalizations.isLive
      rw [hu.others d (hne d hd)]
      exact ⟨rfl, rfl, rfl, rfl, rfl, rfl⟩
    have hsame : ∀ d, (enqueueCandidate s c).order d = s.order d ∧
        (enqueueCandidate s c).isLive d = s.isLive d ∧
        ((enqueueCandidate s c).cell d).registry = (s.cell d).registry := by
      intro d
      unfold Finalizations.order Finalizations.isLive
      by_cases hdc : d = c
      · rw [hdc, hu.cell]
        exact ⟨rfl, rfl, rfl⟩
      · rw [hu.others d hdc]
        exact ⟨rfl, rfl, rfl⟩
    have horder : ∀ d ∈ s.cells, d ≠ c → s.order d ≠ s.order c := fun d hd hdc heq =>
      hdc (ht.orderInj d hd c hmem heq)
    obtain ⟨h', htracks, hregistrations, hcollections, hsameStatus, hdue, hcells, hregs, hreg⟩ :=
      ih ht₁ hbatch
        (by
          intro d hd
          obtain ⟨hd₁, hd₂, hd₃⟩ := hl d (mem_cons_of_mem _ hd)
          rw [hu.cells, (hcell d hd).2.1, (hcell d hd).2.2.1]
          exact ⟨hd₁, hd₂, hd₃⟩)
        (hsorted.2.imp fun {d e} hlt => by rw [(hsame d).1, (hsame e).1]; exact hlt)
        (by
          intro d hd hdlive
          rw [(hsame d).1]
          rw [(hsame d).2.1] at hdlive
          rcases mem_append.mp hd with hd | hd
          · have hdc : d ≠ c := by
              intro heq
              rw [heq] at hd
              rw [(ht.queueMem c hd).2] at hqueued
              cases hqueued
            rw [h.schedule_of_ne (horder d (ht.queueMem d hd).1 hdc)]
            rcases hlast d hd hdlive with hlt | ⟨heq, hlt⟩
            · exact Or.inl hlt
            · refine Or.inr ⟨heq, fun e he => ?_⟩
              rw [(hsame e).1]
              exact hlt e (mem_cons_of_mem _ he)
          · rw [mem_singleton.mp hd, h.schedule_self]
            refine Or.inr ⟨rfl, fun e he => ?_⟩
            rw [(hsame e).1]
            exact hsorted.1 e he)
    rw [append_assoc] at htracks
    refine ⟨h', htracks, hregistrations, hcollections, fun i hi => ?_, fun d hd => ?_,
      hcells.trans hu.cells, hregs.trans hu.registries, fun d => (hreg d).trans (hsame d).2.2⟩
    · rw [hsameStatus i fun d hd => by
        rw [(hsame d).1]
        exact hi d (mem_cons_of_mem _ hd)]
      exact h.schedule_of_ne (hi c mem_cons_self).symm
    · rcases mem_cons.mp hd with rfl | hd
      · rw [hsameStatus _ fun e he => by
          rw [(hsame e).1]
          exact horder e (hl e (mem_cons_of_mem _ he)).1 (hne e he)]
        exact h.schedule_self _ _ _
      · have := hdue d hd
        rw [(hcell d hd).1, (hcell d hd).2.2.2.1, (hcell d hd).2.2.2.2.1,
          (hcell d hd).2.2.2.2.2] at this
        exact this

/-- Makes the registrations of marked registries due whose targets are dead. -/
def FinalizationHistory.scheduleDead (m : Marking T) (h : FinalizationHistory T) :
    FinalizationHistory T :=
  { h with
    collections := h.collections + 1
    status := fun i =>
      if (h.status i).isMarked m then (h.status i).schedule m h.collections else h.status i }

/-- A collection schedules the live cells of marked registries whose targets are dead. -/
lemma Finalizations.Tracks.scheduleFinalization (ht : s.Tracks h chains queue)
    (hm : m.Covers s chains queue) :
    ∃ queue', (scheduleFinalization m s).Tracks (h.scheduleDead m) chains queue' ∧
      m.Covers (RuntimeMemory.scheduleFinalization m s) chains queue' ∧
      (RuntimeMemory.scheduleFinalization m s).cells = s.cells ∧
      (RuntimeMemory.scheduleFinalization m s).registries = s.registries := by
  obtain ⟨hmem, hsorted⟩ := @scheduleCandidates_spec _ s m ht.cellsNodup ht.orderInj
  have ht₀ : s.Tracks { h with collections := h.collections + 1 } chains queue :=
    { ht with
      batch := fun i b r holdings token hi =>
        Nat.lt_succ_of_lt (ht.batch i b r holdings token hi) }
  have hcand : ∀ c ∈ scheduleCandidates m s, c ∈ s.cells ∧ s.isLive c = true ∧
      (s.cell c).queued = false ∧ m.cell c = true ∧ (s.cell c).target.isDead m.object = true := by
    intro c hc
    obtain ⟨hcells, hcand⟩ := (hmem c).mp hc
    unfold isCandidate at hcand
    simp only [Bool.and_eq_true, Bool.not_eq_true', Bool.or_eq_false_iff] at hcand
    exact ⟨hcells, by simp [Finalizations.isLive, hcand.1.2.1], hcand.1.2.2, hcand.1.1, hcand.2⟩
  obtain ⟨h', htracks, hregistrations, hcollections, hsame, hdue, hcells, hregs, hreg⟩ :=
    enqueueCandidates_tracks ht₀ (Nat.lt_succ_self _)
      (fun c hc => ⟨(hcand c hc).1, (hcand c hc).2.1, (hcand c hc).2.2.1⟩) hsorted
      (fun d hd hdlive => by
        obtain ⟨hdc, hq⟩ := ht.queueMem d hd
        obtain ⟨b, hb⟩ := (ht.status d hdc).of_queued (by simpa using hdlive) hq
        refine .inl ?_
        show (h.status (s.order d)).batch < h.collections
        rw [hb]
        exact ht.batch _ _ _ _ _ hb)
  have hh : h' = h.scheduleDead m := by
    cases h'
    unfold FinalizationHistory.scheduleDead
    simp only [FinalizationHistory.mk.injEq]
    refine ⟨hregistrations, hcollections, funext fun i => ?_⟩
    dsimp only at hsame hdue
    -- A registration is scheduled when its cell is a candidate.
    by_cases hi : ∃ c ∈ scheduleCandidates m s, s.order c = i
    · obtain ⟨c, hc, rfl⟩ := hi
      obtain ⟨hcc, hlive, hqueued, hmark, hdead⟩ := hcand c hc
      have hs := ht.status c hcc
      unfold FinalizationCell.HasStatus at hs
      rw [if_neg (by simpa [Finalizations.isLive] using hlive), if_neg (by simp [hqueued])] at hs
      obtain ⟨t, htarget, hst⟩ := hs
      rw [hdue c hc, hst]
      rw [htarget] at hdead
      have hmt : m.object t = false := by simpa [HeapValue.isDead] using hdead
      have hmr := hm.registry c hcc hmark
      simp [RegistrationStatus.isMarked, RegistrationStatus.schedule, hmt, hmr]
    · push Not at hi
      rw [hsame i hi]
      split
      · next hmarked =>
        cases hst : h.status i with
        | watching r t holdings token =>
          rw [hst] at hmarked
          obtain ⟨c, hc, hci, hlive⟩ := ht.tracked i (by rw [hst]; rfl)
          have hs := ht.status c hc
          rw [hci, hst] at hs
          unfold FinalizationCell.HasStatus at hs
          rw [if_neg (by simpa [Finalizations.isLive] using hlive)] at hs
          split at hs
          · obtain ⟨b, hb⟩ := hs
            cases hb
          · next hq =>
            obtain ⟨t', htarget, hb⟩ := hs
            cases hb
            rw [RegistrationStatus.schedule, if_pos]
            by_contra hdead
            refine hi c ((hmem c).mpr ⟨hc, ?_⟩) hci
            have hmc : m.cell c = true := by
              rw [hm.live ht hc hlive]
              exact hmarked
            unfold isCandidate
            rw [htarget, hmc]
            have hp : (s.cell c).processed = false := by simpa using hlive
            simpa [HeapValue.isDead, hq, hp] using hdead
        | _ => rfl
      · rfl
  refine ⟨queue ++ scheduleCandidates m s, hh ▸ htracks, ⟨?_, fun c hc => ?_, ?_⟩, hcells, hregs⟩
  · intro r hr
    exact hm.chain r (hregs ▸ hr)
  · rcases mem_append.mp hc with hc | hc
    · exact hm.queue c hc
    · exact (hcand c hc).2.2.2.1
  · intro c hc hmc
    show m.registry ((foldl _ s _).cell c).registry = true
    rw [hreg c]
    exact hm.registry c (hcells ▸ hc) hmc

end Oseo.RuntimeMemory
