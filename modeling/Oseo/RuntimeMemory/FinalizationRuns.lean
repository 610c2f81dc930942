import Oseo.RuntimeMemory.FinalizationSchedule

/-!
# Compaction and the sweep

A collection unlinks the consumed cells of every marked registry and drops their marks, unless
the cleanup queue still holds them. The sweep then frees what is not marked.
-/

namespace Oseo.RuntimeMemory

open Function
open List
open Oseo.Library

variable {T : Type} {s s' : Finalizations T} {h : FinalizationHistory T}
  {chains : RegistryRef → List CellRef} {queue : List CellRef} {m m' : Marking T}

/-! ## Leaving a chain -/

/-- What unlinking the cell `c` behind `last` from the chain of `r` changes, but for the tail
of the chain, which is `tail` afterwards. -/
structure Unchains (s s' : Finalizations T) (r : RegistryRef) (last : Option CellRef)
    (c : CellRef) (tail : Option CellRef) : Prop where
  cells : s'.cells = s.cells
  registries : s'.registries = s.registries
  head : s'.finalizationHead = s.finalizationHead
  queueTail : s'.finalizationTail = s.finalizationTail
  nextOrder : s'.nextFinalizationOrder = s.nextFinalizationOrder
  pending : s'.finalizationPendingCount = s.finalizationPendingCount
  registry : s'.registry r =
    { cellHead := if last = none then (s.cell c).next else (s.registry r).cellHead
      cellTail := tail }
  registryOthers : ∀ r', r' ≠ r → s'.registry r' = s.registry r'
  next : ∀ d, d ≠ c →
    (s'.cell d).next = if last = some d then (s.cell c).next else (s.cell d).next
  same : ∀ d, s'.cell d = { s.cell d with next := (s'.cell d).next }

/-- The records with the tail of one chain replaced. -/
def Finalizations.withTail (s : Finalizations T) (r : RegistryRef) (tail : Option CellRef) :
    Finalizations T :=
  s.setRegistry r fun registry => { registry with cellTail := tail }

lemma unchainCell_unchains {r : RegistryRef} {last : Option CellRef} {c : CellRef}
    (hlast : last ≠ some c) (tail tail' : Option CellRef) :
    Unchains (s.withTail r tail) ((unchainCell r s last c).withTail r tail') r last c tail' := by
  unfold unchainCell Finalizations.withTail
  cases last with
  | none =>
    constructor
    case same =>
      intro d
      by_cases hdc : d = c <;> simp [hdc]
    case registryOthers =>
      intro r' hr
      simp [hr]
    case next =>
      intro d hd
      simp [hd]
    all_goals simp
  | some p =>
    have hcp : c ≠ p := fun heq => hlast (congrArg some heq.symm)
    constructor
    case same =>
      intro d
      by_cases hdc : d = c <;> by_cases hdp : d = p <;> simp_all
    case registryOthers =>
      intro r' hr
      simp [hr]
    case next =>
      intro d hd
      by_cases hdp : d = p
      · simp [hdp, Ne.symm hcp]
      · simp [hd, hdp, Ne.symm hdp]
    all_goals simp

lemma Unchains.same_cell {r : RegistryRef} {last tail : Option CellRef} {c : CellRef}
    (hu : Unchains s s' r last c tail) (d : CellRef) :
    (s'.cell d).queueNext = (s.cell d).queueNext ∧ (s'.cell d).registry = (s.cell d).registry ∧
      s'.order d = s.order d ∧ (s'.cell d).queued = (s.cell d).queued ∧
      s'.isLive d = s.isLive d := by
  unfold Finalizations.order Finalizations.isLive
  rw [hu.same d]
  exact ⟨rfl, rfl, rfl, rfl, rfl⟩

/-- Unlinking a consumed cell changes its chain only. -/
lemma Finalizations.Tracks.unchain {r : RegistryRef} {a b : List CellRef} {c : CellRef}
    (ht : s.Tracks h chains queue) (hr : r ∈ s.registries) (hchain : chains r = a ++ c :: b)
    (hdead : s.isLive c = false)
    (hu : Unchains s s' r (lastOr none a) c (lastOr none (a ++ b))) :
    s'.Tracks h (Function.update chains r (a ++ b)) queue := by
  have hsub : ∀ d, d ∈ a ++ b → d ∈ chains r := by
    intro d hd
    rw [hchain]
    rcases mem_append.mp hd with hd | hd
    · exact mem_append_left _ hd
    · exact mem_append_right _ (mem_cons_of_mem _ hd)
  have hnodup : (a ++ c :: b).Nodup := hchain ▸ ht.chain_nodup hr
  constructor
  case registrations => rw [hu.nextOrder]; exact ht.registrations
  case cellsNodup => rw [hu.cells]; exact ht.cellsNodup
  case orderInj =>
    intro d hd e he heq
    rw [hu.cells] at hd he
    rw [(hu.same_cell d).2.2.1, (hu.same_cell e).2.2.1] at heq
    exact ht.orderInj d hd e he heq
  case orderLt =>
    intro d hd
    rw [hu.cells] at hd
    rw [(hu.same_cell d).2.2.1]
    exact ht.orderLt d hd
  case status =>
    intro d hd
    rw [hu.cells] at hd
    rw [(hu.same_cell d).2.2.1, hu.same d]
    exact ht.status d hd
  case tracked =>
    intro i hi
    obtain ⟨d, hd, hdi, hlive⟩ := ht.tracked i hi
    exact ⟨d, hu.cells ▸ hd, by rw [(hu.same_cell d).2.2.1, hdi],
      by rw [(hu.same_cell d).2.2.2.2, hlive]⟩
  case absent => exact ht.absent
  case batch => exact ht.batch
  case owner =>
    intro d hd
    rw [hu.cells] at hd
    rw [(hu.same_cell d).2.1, hu.registries]
    exact ht.owner d hd
  case chained =>
    intro d hd hlive
    rw [hu.cells] at hd
    rw [(hu.same_cell d).2.2.2.2] at hlive
    rw [(hu.same_cell d).2.1]
    have hin := ht.chained d hd hlive
    by_cases hreg : (s.cell d).registry = r
    · rw [hreg, hchain] at hin
      rw [hreg, update_self]
      rcases mem_append.mp hin with hin | hin
      · exact mem_append_left _ hin
      · rcases mem_cons.mp hin with rfl | hin
        · rw [hdead] at hlive
          cases hlive
        · exact mem_append_right _ hin
    · rw [update_of_ne hreg]
      exact hin
  case chain =>
    intro r' hr'
    rw [hu.registries] at hr'
    by_cases hrr : r' = r
    · rw [hrr, update_self, hu.registry]
      have hold := ht.chain r hr
      rw [hchain] at hold
      exact hold.unlink hnodup rfl hu.next
    · rw [update_of_ne hrr, hu.registryOthers r' hrr]
      refine (ht.chain r' hr').congr fun d hd => ?_
      obtain ⟨-, hdr⟩ := ht.chainMem r' hr' d hd
      have hforeign : ∀ e ∈ chains r, d ≠ e := by
        intro e he heq
        rw [heq, (ht.chainMem r hr e he).2] at hdr
        exact hrr hdr.symm
      show (s'.cell d).next = (s.cell d).next
      rw [hu.next d (hforeign c (by rw [hchain]; simp)), if_neg]
      exact fun hlast => hforeign d (hsub d (mem_append_left _ (lastOr_mem hlast))) rfl
  case chainTail =>
    intro r' hr'
    rw [hu.registries] at hr'
    by_cases hrr : r' = r
    · rw [hrr, update_self, hu.registry]
    · rw [update_of_ne hrr, hu.registryOthers r' hrr]
      exact ht.chainTail r' hr'
  case chainMem =>
    intro r' hr' d hd
    rw [hu.registries] at hr'
    rw [hu.cells, (hu.same_cell d).2.1]
    by_cases hrr : r' = r
    · rw [hrr, update_self] at hd
      rw [hrr]
      exact ht.chainMem r hr d (hsub d hd)
    · rw [update_of_ne hrr] at hd
      exact ht.chainMem r' hr' d hd
  case chainSorted =>
    intro r' hr'
    rw [hu.registries] at hr'
    have hsorted : (update chains r (a ++ b) r').Pairwise
        fun d e => s.order d < s.order e := by
      by_cases hrr : r' = r
      · rw [hrr, update_self]
        refine (ht.chainSorted r hr).sublist ?_
        rw [hchain]
        exact List.Sublist.append (List.Sublist.refl a) (sublist_cons_self c b)
      · rw [update_of_ne hrr]
        exact ht.chainSorted r' hr'
    refine hsorted.imp fun {d e} hlt => ?_
    rw [(hu.same_cell d).2.2.1, (hu.same_cell e).2.2.1]
    exact hlt
  case queueChain =>
    rw [hu.head]
    exact ht.queueChain.congr fun d _ => (hu.same_cell d).1
  case queueTail => rw [hu.queueTail]; exact ht.queueTail
  case queueNodup => exact ht.queueNodup
  case queueMem =>
    intro d hd
    rw [hu.cells, (hu.same_cell d).2.2.2.1]
    exact ht.queueMem d hd
  case queuedMem =>
    intro d hd hq
    rw [hu.cells] at hd
    rw [(hu.same_cell d).2.2.2.1] at hq
    exact ht.queuedMem d hd hq
  case queueSorted =>
    refine ht.queueSorted.imp fun {d e} hbefore hdlive helive => ?_
    rw [(hu.same_cell d).2.2.2.2] at hdlive
    rw [(hu.same_cell e).2.2.2.2] at helive
    rw [(hu.same_cell d).2.2.1, (hu.same_cell e).2.2.1]
    exact hbefore hdlive helive
  case pending =>
    rw [hu.pending, ht.pending]
    apply countP_congr
    intro d _
    rw [(hu.same_cell d).2.2.2.2]

/-! ## Compaction -/

/-- Dropping the mark of an unlinked cell keeps the chains and the queue marked. -/
lemma Marking.Covers.dropCell {chains' : RegistryRef → List CellRef} {c : CellRef}
    (hm : m.Covers s chains queue) (hcells : s'.cells = s.cells)
    (hregistries : s'.registries = s.registries)
    (hregistry : ∀ d, (s'.cell d).registry = (s.cell d).registry)
    (hchains : ∀ r ∈ s.registries, ∀ d ∈ chains' r, d ∈ chains r ∧ d ≠ c)
    (hqueue : (s.cell c).queued = false → c ∉ queue) :
    (m.dropCell (s.cell c) c).Covers s' chains' queue := by
  have hkeep : ∀ d, d ≠ c → m.cell d = true → (m.dropCell (s.cell c) c).cell d = true := by
    intro d hd hmd
    unfold Marking.dropCell
    split
    · exact hmd
    · show update m.cell c false d = true
      rw [update_of_ne hd]
      exact hmd
  have hreg : (m.dropCell (s.cell c) c).registry = m.registry := by
    unfold Marking.dropCell
    split <;> rfl
  constructor
  case chain =>
    intro r hr hmr d hd
    rw [hregistries] at hr
    rw [hreg] at hmr
    obtain ⟨hd', hdc⟩ := hchains r hr d hd
    exact hkeep d hdc (hm.chain r hr hmr d hd')
  case queue =>
    intro d hd
    by_cases hdc : d = c
    · unfold Marking.dropCell
      rw [if_pos]
      · exact hm.queue d hd
      · by_contra hq
        exact hqueue (Bool.eq_false_iff.mpr hq) (hdc ▸ hd)
    · exact hkeep d hdc (hm.queue d hd)
  case registry =>
    intro d hd hmd
    rw [hcells] at hd
    rw [hreg, hregistry]
    apply hm.registry d hd
    by_contra hdead
    unfold Marking.dropCell at hmd
    split at hmd
    · exact hdead hmd
    · have hupdate : update m.cell c false d = true := hmd
      by_cases hdc : d = c
      · rw [hdc, update_self] at hupdate
        cases hupdate
      · rw [update_of_ne hdc] at hupdate
        exact hdead hupdate

/-- The walk over the rest `b` of the chain of `r`, with the cells in `a` kept. -/
lemma compactCells_tracks {r : RegistryRef} {a b : List CellRef} {fuel : ℕ}
    (ht : (s.withTail r (lastOr none (a ++ b))).Tracks h chains queue) (hr : r ∈ s.registries)
    (hchain : chains r = a ++ b) (hm : m.Covers s chains queue) (hfuel : b.length ≤ fuel) :
    ∃ m' s' chains', compactCells r fuel (lastOr none a) b.head? (m, s) = some (m', s') ∧
      s'.Tracks h chains' queue ∧ m'.Covers s' chains' queue ∧ s'.cells = s.cells ∧
      s'.registries = s.registries ∧ m'.registry = m.registry ∧ m'.object = m.object := by
  induction b generalizing a s m fuel chains with
  | nil =>
    rw [append_nil] at ht
    refine ⟨m, _, chains, ?_, ht, ?_, rfl, rfl, rfl, rfl⟩
    · cases fuel <;> rfl
    · exact { hm with }
  | cons c b ih =>
    obtain _ | fuel := fuel
    · cases hfuel
    have hfuel' : b.length ≤ fuel := by simpa using hfuel
    have hlinks := ht.chain r hr
    rw [hchain] at hlinks
    have hnext : (s.cell c).next = b.head? := (chain_middle.mp hlinks).2.head_eq
    have hnodup : (a ++ c :: b).Nodup := hchain ▸ ht.chain_nodup hr
    obtain ⟨-, hca, hcb, -⟩ := nodup_middle hnodup
    have hc : c ∈ chains r := by
      rw [hchain]
      simp
    obtain ⟨-, hcr⟩ := ht.chainMem r hr c hc
    rw [head?_cons, compactCells]
    by_cases hp : (s.cell c).processed = true
    · rw [if_pos hp, hnext]
      have hlast : lastOr none a ≠ some c := fun heq => hca (lastOr_mem heq)
      have hu := @unchainCell_unchains _ s r (lastOr none a) c hlast
        (lastOr none (a ++ c :: b)) (lastOr none (a ++ b))
      have hdead : (s.withTail r (lastOr none (a ++ c :: b))).isLive c = false := by
        show (!(s.cell c).processed) = false
        rw [hp]
        rfl
      have ht₁ := ht.unchain hr hchain hdead hu
      have hcover : (m.dropCell (s.cell c) c).Covers (unchainCell r s (lastOr none a) c)
          (update chains r (a ++ b)) queue := by
        apply hm.dropCell
        case hcells => exact hu.cells
        case hregistries => exact hu.registries
        case hregistry => exact fun d => (hu.same_cell d).2.1
        case hchains =>
          intro r' hr' d hd
          by_cases hrr : r' = r
          · rw [hrr, update_self] at hd
            rw [hrr, hchain]
            rcases mem_append.mp hd with hd | hd
            · exact ⟨mem_append_left _ hd, fun hdc => hca (hdc ▸ hd)⟩
            · exact ⟨mem_append_right _ (mem_cons_of_mem _ hd),
                fun hdc => hcb (hdc ▸ hd)⟩
          · rw [update_of_ne hrr] at hd
            refine ⟨hd, fun hdc => ?_⟩
            have hdr := (ht.chainMem r' hr' d hd).2
            rw [hdc, hcr] at hdr
            exact hrr hdr.symm
        case hqueue =>
          intro hq hcq
          have hqueued := (ht.queueMem c hcq).2
          rw [show ((s.withTail r _).cell c).queued = (s.cell c).queued from rfl, hq] at hqueued
          cases hqueued
      obtain ⟨m', s', chains', hrun, htracks, hcovers, hcells, hregs, hmr, hmo⟩ :=
        ih ht₁ (by rw [show (unchainCell r s (lastOr none a) c).registries = s.registries from
          hu.registries]; exact hr) (update_self _ _ _) hcover hfuel'
      have hdrop : (m.dropCell (s.cell c) c).registry = m.registry ∧
          (m.dropCell (s.cell c) c).object = m.object := by
        unfold Marking.dropCell
        split <;> exact ⟨rfl, rfl⟩
      exact ⟨m', s', chains', hrun, htracks, hcovers, hcells.trans hu.cells,
        hregs.trans hu.registries, hmr.trans hdrop.1, hmo.trans hdrop.2⟩
    · rw [if_neg hp, hnext, ← lastOr_concat none a c]
      have hassoc : a ++ c :: b = (a ++ [c]) ++ b := by simp
      rw [hassoc] at ht hchain
      exact ih ht hr hchain hm hfuel'

/-- Compaction ends, and keeps the chains and the queue marked. -/
lemma compactFinalizationRegistries_tracks {l : List RegistryRef}
    (ht : s.Tracks h chains queue) (hl : ∀ r ∈ l, r ∈ s.registries)
    (hm : m.Covers s chains queue) :
    ∃ m' s' chains', compactFinalizationRegistries l (m, s) = some (m', s') ∧
      s'.Tracks h chains' queue ∧ m'.Covers s' chains' queue ∧
      m'.registry = m.registry ∧ m'.object = m.object := by
  induction l generalizing s m chains with
  | nil => exact ⟨m, s, chains, rfl, ht, hm, rfl, rfl⟩
  | cons r l ih =>
    have hr := hl r mem_cons_self
    rw [compactFinalizationRegistries]
    by_cases hmr : m.registry r = true
    · rw [if_pos hmr]
      have htail : s.withTail r (lastOr none (chains r)) = s := by
        unfold Finalizations.withTail Finalizations.setRegistry
        rw [← ht.chainTail r hr, update_eq_self]
      obtain ⟨m₁, s₁, chains₁, hrun, ht₁, hm₁, -, hregs, hmr₁, hmo₁⟩ :=
        @compactCells_tracks _ s h chains queue m r [] (chains r) s.cells.length
          (by rw [nil_append, htail]; exact ht) hr rfl hm (ht.chain_length hr)
      rw [(ht.chain r hr).head_eq]
      rw [lastOr_nil] at hrun
      rw [hrun]
      obtain ⟨m', s', chains', hrun', ht', hm', hmr', hmo'⟩ :=
        ih ht₁ (fun r' hr' => hregs ▸ hl r' (mem_cons_of_mem _ hr')) hm₁
      exact ⟨m', s', chains', hrun', ht', hm', hmr'.trans hmr₁, hmo'.trans hmo₁⟩
    · rw [if_neg hmr]
      exact ih ht (fun r' hr' => hl r' (mem_cons_of_mem _ hr')) hm

/-! ## The sweep -/

/-- Consumes the registrations of dead registries. -/
def FinalizationHistory.dropRegistries (m : Marking T) (h : FinalizationHistory T) :
    FinalizationHistory T :=
  { h with status := fun i => (h.status i).dropRegistry m }

/-- Freeing what is not marked. -/
theorem Finalizations.Tracks.sweep (ht : s.Tracks h chains queue) (hm : m.Covers s chains queue) :
    Finalizations.Tracks
      { s with
        cells := s.cells.filter m.cell
        registries := s.registries.filter m.registry }
      (h.dropRegistries m) chains queue := by
  have hopen : ∀ i, ((h.dropRegistries m).status i).isOpen = true →
      (h.status i).isMarked m = true ∧ (h.status i).isOpen = true := by
    intro i hi
    have hi' : ((h.status i).dropRegistry m).isOpen = true := hi
    cases hst : h.status i with
    | absent =>
      rw [hst] at hi'
      cases hi'
    | consumed =>
      rw [hst] at hi'
      cases hi'
    | watching r t holdings token =>
      rw [hst, RegistrationStatus.dropRegistry] at hi'
      split at hi'
      · next hmr => exact ⟨hmr, rfl⟩
      · cases hi'
    | due b r holdings token =>
      rw [hst, RegistrationStatus.dropRegistry] at hi'
      split at hi'
      · next hmr => exact ⟨hmr, rfl⟩
      · cases hi'
  -- A registration of a marked cell is one of a marked registry.
  have hsame : ∀ c ∈ s.cells, m.cell c = true →
      (h.dropRegistries m).status (s.order c) = h.status (s.order c) := by
    intro c hc hmc
    have hmr := hm.registry c hc hmc
    have hs := ht.status c hc
    show (h.status (s.order c)).dropRegistry m = _
    unfold FinalizationCell.HasStatus at hs
    split at hs
    · rw [hs]
      rfl
    · split at hs
      · obtain ⟨b, hb⟩ := hs
        rw [hb, RegistrationStatus.dropRegistry, if_pos hmr]
      · obtain ⟨t, -, hb⟩ := hs
        rw [hb, RegistrationStatus.dropRegistry, if_pos hmr]
  have hcells : ∀ c, c ∈ s.cells.filter m.cell ↔ c ∈ s.cells ∧ m.cell c = true :=
    fun c => mem_filter
  have hregistries : ∀ r, r ∈ s.registries.filter m.registry ↔
      r ∈ s.registries ∧ m.registry r = true := fun r => mem_filter
  constructor
  case registrations => exact ht.registrations
  case cellsNodup => exact ht.cellsNodup.filter _
  case orderInj =>
    intro c hc d hd heq
    exact ht.orderInj c ((hcells c).mp hc).1 d ((hcells d).mp hd).1 heq
  case orderLt => exact fun c hc => ht.orderLt c ((hcells c).mp hc).1
  case status =>
    intro c hc
    obtain ⟨hcc, hmc⟩ := (hcells c).mp hc
    show (s.cell c).HasStatus ((h.dropRegistries m).status (s.order c))
    rw [hsame c hcc hmc]
    exact ht.status c hcc
  case tracked =>
    intro i hi
    obtain ⟨hmarked, hi'⟩ := hopen i hi
    obtain ⟨c, hc, hci, hlive⟩ := ht.tracked i hi'
    refine ⟨c, (hcells c).mpr ⟨hc, ?_⟩, hci, hlive⟩
    rw [hm.live ht hc hlive]
    have hs := ht.status c hc
    rw [hci] at hs
    unfold FinalizationCell.HasStatus at hs
    rw [if_neg (by simpa [Finalizations.isLive] using hlive)] at hs
    split at hs
    · obtain ⟨b, hb⟩ := hs
      rw [hb] at hmarked
      exact hmarked
    · obtain ⟨t, -, hb⟩ := hs
      rw [hb] at hmarked
      exact hmarked
  case absent =>
    intro i hi
    show (h.status i).dropRegistry m = _
    rw [ht.absent i hi]
    rfl
  case batch =>
    intro i b r holdings token hi
    have hi' : (h.status i).dropRegistry m = .due b r holdings token := hi
    cases hst : h.status i with
    | due b' r' holdings' token' =>
      rw [hst, RegistrationStatus.dropRegistry] at hi'
      split at hi'
      · cases hi'
        exact ht.batch i b r holdings token hst
      · cases hi'
    | watching r' t holdings' token' =>
      rw [hst, RegistrationStatus.dropRegistry] at hi'
      split at hi' <;> cases hi'
    | _ =>
      rw [hst] at hi'
      cases hi'
  case owner =>
    intro c hc
    obtain ⟨hcc, hmc⟩ := (hcells c).mp hc
    exact (hregistries _).mpr ⟨ht.owner c hcc, hm.registry c hcc hmc⟩
  case chained => exact fun c hc => ht.chained c ((hcells c).mp hc).1
  case chain => exact fun r hr => ht.chain r ((hregistries r).mp hr).1
  case chainTail => exact fun r hr => ht.chainTail r ((hregistries r).mp hr).1
  case chainMem =>
    intro r hr c hc
    obtain ⟨hrr, hmr⟩ := (hregistries r).mp hr
    obtain ⟨hcc, hcr⟩ := ht.chainMem r hrr c hc
    exact ⟨(hcells c).mpr ⟨hcc, hm.chain r hrr hmr c hc⟩, hcr⟩
  case chainSorted => exact fun r hr => ht.chainSorted r ((hregistries r).mp hr).1
  case queueChain => exact ht.queueChain
  case queueTail => exact ht.queueTail
  case queueNodup => exact ht.queueNodup
  case queueMem =>
    intro c hc
    obtain ⟨hcc, hq⟩ := ht.queueMem c hc
    exact ⟨(hcells c).mpr ⟨hcc, hm.queue c hc⟩, hq⟩
  case queuedMem => exact fun c hc => ht.queuedMem c ((hcells c).mp hc).1
  case queueSorted =>
    refine ht.queueSorted.imp_of_mem fun {c d} hc hd hbefore hclive hdlive => ?_
    show (h.dropRegistries m).Before (s.order c) (s.order d)
    unfold FinalizationHistory.Before
    rw [hsame c (ht.queueMem c hc).1 (hm.queue c hc), hsame d (ht.queueMem d hd).1 (hm.queue d hd)]
    exact hbefore hclive hdlive
  case pending => exact ht.pending

/-! ## Collection -/

/-- The passes of a collection do to each registration what a collection does. -/
lemma RegistrationStatus.collect_eq (m : Marking T) (batch : ℕ) (status : RegistrationStatus T) :
    RegistrationStatus.dropRegistry m
      (let cleared := if status.isMarked m then status.clearToken m else status
       if cleared.isMarked m then cleared.schedule m batch else cleared) =
      status.collect m batch := by
  cases status with
  | absent => rfl
  | consumed => rfl
  | watching r t holdings token =>
    by_cases hr : m.registry r = true <;> by_cases ht : m.object t = true <;>
      simp [RegistrationStatus.collect, RegistrationStatus.dropRegistry,
        RegistrationStatus.clearToken, RegistrationStatus.schedule, RegistrationStatus.isMarked,
        hr, ht]
  | due b r holdings token =>
    by_cases hr : m.registry r = true <;>
      simp [RegistrationStatus.collect, RegistrationStatus.dropRegistry,
        RegistrationStatus.clearToken, RegistrationStatus.schedule, RegistrationStatus.isMarked, hr]

/-- A collection ends, and does to every registration what a collection does. -/
lemma Finalizations.Tracks.collect [DecidableEq T] (ht : s.Tracks h chains queue)
    (hm : m.Closed s) :
    ∃ s' chains' queue', finalizationCollect m s = some s' ∧
      s'.Tracks (historyStep h (.collect m)) chains' queue' := by
  unfold finalizationCollect
  obtain ⟨ht₁, hm₁⟩ := ht.clearTokens (hm.covers ht) (clearDeadTokens_clears m s.cells s)
  obtain ⟨queue', ht₂, hm₂, -, -⟩ := ht₁.scheduleFinalization hm₁
  obtain ⟨m', s', chains', hrun, ht₃, hm₃, hmr, hmo⟩ :=
    compactFinalizationRegistries_tracks ht₂ (fun _ hr => hr) hm₂
  dsimp only
  rw [hrun]
  refine ⟨_, chains', queue', rfl, ?_⟩
  have hh : ((h.clearTokens m).scheduleDead m).dropRegistries m' = historyStep h (.collect m) := by
    have hdrop : ∀ st : RegistrationStatus T, st.dropRegistry m' = st.dropRegistry m := by
      intro st
      cases st <;> simp [RegistrationStatus.dropRegistry, hmr]
    unfold FinalizationHistory.dropRegistries FinalizationHistory.scheduleDead
      FinalizationHistory.clearTokens historyStep
    simp only [FinalizationHistory.mk.injEq, true_and]
    funext i
    rw [hdrop]
    exact RegistrationStatus.collect_eq m h.collections (h.status i)
  rw [← hh]
  exact ht₃.sweep hm₃

/-! ## Runs of the finalization records

Any sequence of registrations, unregistrations, collections and requests for a cleanup. What a
cleanup callback does is more of the same, so it needs no step of its own.

* `FinalizationStep` is one operation with its result;
* `finalizationRun_correct` says that the records describe the open and the due registrations,
  and that cleanups are given once, in order and for dead targets only.
-/

variable [DecidableEq T] {events : List (FinalizationEvent T)}

/-- One operation. An allocated record has an address of its own. -/
inductive FinalizationStep :
    Finalizations T → FinalizationEvent T → Finalizations T → Prop
  | create {s : Finalizations T} {r : RegistryRef} (fresh : r ∉ s.registries) :
      FinalizationStep s (.create r) (finalizationRegistryCreate s r)
  | register {s s' : Finalizations T} {r : RegistryRef} {target : T}
      {holdings token : HeapValue T} {env : RegisterEnvironment} (hr : r ∈ s.registries)
      (fresh : ∀ c, env.cell = some c → c ∉ s.cells)
      (h : finalizationRegisterToken s (some r) (.heap target) holdings token env = (none, s')) :
      FinalizationStep s (.register r target holdings token) s'
  | rejected {s s' : Finalizations T} {registry : Option RegistryRef}
      {target holdings token : HeapValue T} {env : RegisterEnvironment} {error : String}
      (hr : ∀ r, registry = some r → r ∈ s.registries)
      (fresh : ∀ c, env.cell = some c → c ∉ s.cells)
      (h : finalizationRegisterToken s registry target holdings token env = (some error, s')) :
      FinalizationStep s (.rejected error) s'
  | unregister {s s' : Finalizations T} {registry : Option RegistryRef} {token : HeapValue T}
      {removed : Bool} (hr : ∀ r, registry = some r → r ∈ s.registries)
      (h : finalizationUnregister s registry token = some (removed, s')) :
      FinalizationStep s (.unregister registry token removed) s'
  | collect {s s' : Finalizations T} {m : Marking T} (closed : m.Closed s)
      (h : finalizationCollect m s = some s') : FinalizationStep s (.collect m) s'
  | take {s s' : Finalizations T} {registry : Option RegistryRef} {cleanup : Option (Cleanup T)}
      (h : takeQueuedCleanup s registry = some (cleanup, s')) :
      FinalizationStep s (.take registry cleanup) s'

omit [DecidableEq T] in
/-- A new registry has an empty chain. -/
lemma Finalizations.Tracks.create (ht : s.Tracks h chains queue) {r : RegistryRef}
    (hr : r ∉ s.registries) :
    (finalizationRegistryCreate s r).Tracks h (Function.update chains r []) queue := by
  have hne : ∀ r' ∈ s.registries, r' ≠ r := fun r' hr' heq => hr (heq ▸ hr')
  have hmem : ∀ r', r' ∈ (finalizationRegistryCreate s r).registries ↔
      r' = r ∨ r' ∈ s.registries := fun r' => mem_cons
  have hregistry : ∀ r', (finalizationRegistryCreate s r).registry r' =
      if r' = r then ⟨none, none⟩ else s.registry r' := fun r' => update_apply ..
  exact
    { ht with
      owner := fun c hc => (hmem _).mpr (.inr (ht.owner c hc))
      chained := fun c hc hlive => by
        show c ∈ update chains r [] (s.cell c).registry
        rw [update_of_ne (hne _ (ht.owner c hc))]
        exact ht.chained c hc hlive
      chain := fun r' hr' => by
        rw [hregistry]
        rcases (hmem r').mp hr' with rfl | hr'
        · rw [if_pos rfl, update_self]
          rfl
        · rw [if_neg (hne r' hr'), update_of_ne (hne r' hr')]
          exact ht.chain r' hr'
      chainTail := fun r' hr' => by
        rw [hregistry]
        rcases (hmem r').mp hr' with rfl | hr'
        · rw [if_pos rfl, update_self]
          rfl
        · rw [if_neg (hne r' hr'), update_of_ne (hne r' hr')]
          exact ht.chainTail r' hr'
      chainMem := fun r' hr' c hc => by
        rcases (hmem r').mp hr' with rfl | hr'
        · rw [update_self] at hc
          exact absurd hc not_mem_nil
        · rw [update_of_ne (hne r' hr')] at hc
          exact ht.chainMem r' hr' c hc
      chainSorted := fun r' hr' => by
        rcases (hmem r').mp hr' with rfl | hr'
        · rw [update_self]
          exact .nil
        · rw [update_of_ne (hne r' hr')]
          exact ht.chainSorted r' hr' }

/-- One operation keeps the invariant and has the result it has to have. -/
lemma FinalizationStep.tracks {event : FinalizationEvent T} (ht : s.Tracks h chains queue)
    (hstep : FinalizationStep s event s') :
    FinalizationAnswers h event ∧
      ∃ chains' queue', s'.Tracks (historyStep h event) chains' queue' := by
  have hlast : ∀ c r, r ∈ s.registries → c ∉ s.cells → (s.registry r).cellTail ≠ some c := by
    intro c r hr hc heq
    rw [ht.chainTail r hr] at heq
    exact hc (ht.chainMem r hr c (lastOr_mem heq)).1
  cases hstep with
  | create fresh => exact ⟨trivial, _, queue, ht.create fresh⟩
  | register hr fresh hrun =>
    next r target holdings token env =>
    have hcases := finalizationRegisterToken_cases hrun fun r' c hr' hc => by
      cases hr'
      exact hlast c r hr (fresh c hc)
    rcases hcases with ⟨error, he, -⟩ | ⟨-, r', c, t, hr', hc, htarget, hu⟩
    · cases he
    · cases hr'
      cases htarget
      exact ⟨trivial, _, queue, ht.register hr (fresh c hc) hu⟩
  | rejected hr fresh hrun =>
    next registry target holdings token env error =>
    have hcases := finalizationRegisterToken_cases hrun fun r' c hr' hc =>
      hlast c r' (hr r' hr') (fresh c hc)
    rcases hcases with ⟨error', -, rfl⟩ | ⟨he, -⟩
    · exact ⟨trivial, chains, queue, ht⟩
    · cases he
  | unregister hr hrun =>
    next registry token removed =>
    obtain ⟨removed', s'', hrun', hanswers, htracks, -⟩ := ht.unregister hr token
    rw [hrun] at hrun'
    cases hrun'
    exact ⟨hanswers, chains, queue, htracks⟩
  | collect closed hrun =>
    obtain ⟨s'', chains', queue', hrun', htracks⟩ := ht.collect closed
    rw [hrun] at hrun'
    cases hrun'
    exact ⟨trivial, chains', queue', htracks⟩
  | take hrun =>
    next registry cleanup =>
    obtain ⟨result, s'', queue', hrun', hanswers, htracks, -⟩ := ht.take registry
    rw [hrun] at hrun'
    cases hrun'
    exact ⟨hanswers, chains, queue', htracks⟩

/-! ## What the records describe -/

/-- The registry of an open registration. -/
def RegistrationStatus.registryOf : RegistrationStatus T → Option RegistryRef
  | .watching registry _ _ _ => some registry
  | .due _ registry _ _ => some registry
  | _ => none

/-- The records describe the registrations: each registry's chain leads through its open ones
in order, the queue through those due in the order of their cleanups, and the counter counts
these. A consumed cell may still be linked. Every operation ends. -/
structure Finalizations.Describes (s : Finalizations T) (h : FinalizationHistory T)
    (chains : RegistryRef → List CellRef) (queue : List CellRef) : Prop where
  chain : ∀ r ∈ s.registries,
    Chain (fun c => (s.cell c).next) (s.registry r).cellHead (chains r) none
  chainTail : ∀ r ∈ s.registries, (s.registry r).cellTail = (chains r).getLast?
  chainSorted : ∀ r ∈ s.registries, (chains r).Pairwise fun c d => s.order c < s.order d
  chainOpen : ∀ r ∈ s.registries, ∀ i,
    (∃ c ∈ chains r, s.order c = i ∧ s.isLive c = true) ↔ (h.status i).registryOf = some r
  queueChain : Chain (fun c => (s.cell c).queueNext) s.finalizationHead queue none
  queueTail : s.finalizationTail = queue.getLast?
  queueNodup : queue.Nodup
  queueSorted : queue.Pairwise fun c d =>
    s.isLive c = true → s.isLive d = true → h.Before (s.order c) (s.order d)
  queueDue : ∀ i, (∃ c ∈ queue, s.order c = i ∧ s.isLive c = true) ↔ h.IsDue none i
  pending : s.finalizationPendingCount = queue.countP s.isLive
  unregister : ∀ registry token, (∀ r, registry = some r → r ∈ s.registries) →
    ∃ result, finalizationUnregister s registry token = some result
  take : ∀ registry, ∃ result, takeQueuedCleanup s registry = some result
  collect : ∀ m : Marking T, m.Closed s → ∃ s', finalizationCollect m s = some s'

omit [DecidableEq T] in
lemma FinalizationCell.HasStatus.registryOf {cell : FinalizationCell T}
    {status : RegistrationStatus T} (hs : cell.HasStatus status) (hp : cell.processed = false) :
    status.registryOf = some cell.registry := by
  unfold FinalizationCell.HasStatus at hs
  rw [if_neg (by simp [hp])] at hs
  split at hs
  · obtain ⟨b, rfl⟩ := hs
    rfl
  · obtain ⟨t, -, rfl⟩ := hs
    rfl

omit [DecidableEq T] in
lemma RegistrationStatus.isOpen_of_registry {status : RegistrationStatus T} {r : RegistryRef}
    (hs : status.registryOf = some r) : status.isOpen = true := by
  cases status <;> first | rfl | cases hs

lemma Finalizations.Tracks.describes (ht : s.Tracks h chains queue) :
    s.Describes h chains queue where
  chain := ht.chain
  chainTail := fun r hr => by rw [ht.chainTail r hr, lastOr, Option.or_none]
  chainSorted := ht.chainSorted
  chainOpen := fun r hr i => by
    constructor
    · rintro ⟨c, hc, hci, hlive⟩
      obtain ⟨hcc, hcr⟩ := ht.chainMem r hr c hc
      rw [← hci, (ht.status c hcc).registryOf (by simpa using hlive), hcr]
    · intro hi
      obtain ⟨c, hc, hci, hlive⟩ := ht.tracked i (RegistrationStatus.isOpen_of_registry hi)
      have hcr := (ht.status c hc).registryOf (by simpa using hlive)
      rw [hci, hi, Option.some.injEq] at hcr
      exact ⟨c, hcr ▸ ht.chained c hc hlive, hci, hlive⟩
  queueChain := ht.queueChain
  queueTail := by rw [ht.queueTail, lastOr, Option.or_none]
  queueNodup := ht.queueNodup
  queueSorted := ht.queueSorted
  queueDue := fun i => by
    rw [ht.isDue]
    simp
  pending := ht.pending
  unregister := fun registry token hr => by
    obtain ⟨removed, s', hrun, -⟩ := ht.unregister hr token
    exact ⟨_, hrun⟩
  take := fun registry => by
    obtain ⟨result, s', -, hrun, -⟩ := ht.take registry
    exact ⟨_, hrun⟩
  collect := fun m hm => by
    obtain ⟨s', -, -, hrun, -⟩ := ht.collect hm
    exact ⟨s', hrun⟩

/-! ## Taken once -/

/-- The registration whose cleanup an operation took. -/
def FinalizationEvent.taken : FinalizationEvent T → Option ℕ
  | .take _ (some cleanup) => some cleanup.registrationOrder
  | _ => none

/-- A consumed registration stays so. -/
lemma historyStep_consumed {i : ℕ} (event : FinalizationEvent T)
    (hi : h.status i = .consumed) (hlt : i < h.registrations) :
    (historyStep h event).status i = .consumed ∧ i < (historyStep h event).registrations := by
  cases event with
  | register r target holdings token =>
    refine ⟨?_, Nat.lt_succ_of_lt hlt⟩
    show update h.status h.registrations _ i = _
    rw [update_of_ne (by omega), hi]
  | unregister registry token removed =>
    cases registry with
    | none => exact ⟨hi, hlt⟩
    | some r =>
      rw [historyStep]
      split
      · refine ⟨?_, hlt⟩
        show (if (h.status i).hasToken r token = true then _ else _) = _
        rw [hi]
        rfl
      · exact ⟨hi, hlt⟩
  | collect m =>
    refine ⟨?_, hlt⟩
    show (h.status i).collect m h.collections = _
    rw [hi]
    rfl
  | take registry cleanup =>
    cases cleanup with
    | none => exact ⟨hi, hlt⟩
    | some cleanup =>
      refine ⟨?_, hlt⟩
      show update h.status cleanup.registrationOrder _ i = _
      rw [update_apply, hi]
      split <;> rfl
  | _ => exact ⟨hi, hlt⟩

lemma historyAfter_concat (events : List (FinalizationEvent T)) (event : FinalizationEvent T) :
    historyAfter (events ++ [event]) = historyStep (historyAfter events) event := by
  unfold historyAfter
  rw [foldl_concat]

/-- A consumed registration is not taken. -/
lemma not_taken_of_consumed {past rest : List (FinalizationEvent T)} {i : ℕ}
    (hanswers : ∀ before event after, past ++ rest = before ++ event :: after →
      FinalizationAnswers (historyAfter before) event)
    (hi : (historyAfter past).status i = .consumed)
    (hlt : i < (historyAfter past).registrations) :
    i ∉ rest.filterMap FinalizationEvent.taken := by
  induction rest generalizing past with
  | nil => simp
  | cons event rest ih =>
    obtain ⟨hi', hlt'⟩ := historyStep_consumed event hi hlt
    rw [← historyAfter_concat] at hi' hlt'
    have hrest := @ih (past ++ [event])
      (by rw [append_assoc]; exact hanswers) hi' hlt'
    rw [mem_filterMap] at hrest ⊢
    intro ⟨e, he, htaken⟩
    rcases mem_cons.mp he with rfl | he
    · cases e with
      | take registry cleanup =>
        cases cleanup with
        | none => cases htaken
        | some cleanup =>
          obtain ⟨⟨b, r, holdings, token, hdue, -⟩, -⟩ :=
            hanswers past (.take registry (some cleanup)) rest rfl
          rw [FinalizationEvent.taken, Option.some.injEq] at htaken
          rw [htaken, hi] at hdue
          cases hdue
      | _ => cases htaken
    · exact hrest ⟨e, he, htaken⟩

/-- A context without finalization records, in any memory. -/
def Finalizations.start (cell : CellRef → FinalizationCell T)
    (registry : RegistryRef → FinalizationRegistry) : Finalizations T where
  cells := []
  registries := []
  cell := cell
  registry := registry
  finalizationHead := none
  finalizationTail := none
  nextFinalizationOrder := 0
  finalizationPendingCount := 0

omit [DecidableEq T] in
lemma Finalizations.start_tracks (cell : CellRef → FinalizationCell T)
    (registry : RegistryRef → FinalizationRegistry) :
    (Finalizations.start cell registry).Tracks ⟨0, 0, fun _ => .absent⟩ (fun _ => []) [] := by
  constructor
  case registrations => rfl
  case tracked => exact fun i hi => by cases hi
  case absent => exact fun i _ => rfl
  case batch => exact fun i b r holdings token hi => by cases hi
  case queueChain => rfl
  case queueTail => rfl
  case pending => rfl
  all_goals simp [Finalizations.start]

/-- The invariant along a run. -/
lemma finalizationRun_tracks {cell : CellRef → FinalizationCell T}
    {registry : RegistryRef → FinalizationRegistry}
    (hrun : Steps FinalizationStep (Finalizations.start cell registry) events s) :
    (∃ chains queue, s.Tracks (historyAfter events) chains queue) ∧
      ∀ past event rest, events = past ++ event :: rest →
        FinalizationAnswers (historyAfter past) event ∧
          ∀ i, (historyAfter past).registrations ≤ i → (historyAfter past).status i = .absent :=
  @Steps.invariant_each _ _ _ _ _ _
    (fun past s => ∃ chains queue, s.Tracks (historyAfter past) chains queue)
    (fun past event => FinalizationAnswers (historyAfter past) event ∧
      ∀ i, (historyAfter past).registrations ≤ i → (historyAfter past).status i = .absent) hrun
    ⟨_, _, Finalizations.start_tracks cell registry⟩ (by
      intro past s event s' ⟨chains, queue, ht⟩ hstep
      obtain ⟨hanswers, chains', queue', ht'⟩ := FinalizationStep.tracks ht hstep
      exact ⟨⟨hanswers, ht.absent⟩, chains', queue', historyAfter_concat past event ▸ ht'⟩)

/-- In every run the records describe the registrations, and every operation has its result:
a request for a cleanup gives the first registration due, and none only when none is due. No
registration is taken twice, and none after an unregistration that found it. -/
theorem finalizationRun_correct {cell : CellRef → FinalizationCell T}
    {registry : RegistryRef → FinalizationRegistry}
    (hrun : Steps FinalizationStep (Finalizations.start cell registry) events s) :
    (∃ chains queue, s.Describes (historyAfter events) chains queue) ∧
      (∀ past event rest, events = past ++ event :: rest →
        FinalizationAnswers (historyAfter past) event) ∧
      (∀ past request cleanup rest, events = past ++ .take request (some cleanup) :: rest →
        cleanup.registrationOrder ∉ rest.filterMap FinalizationEvent.taken) ∧
      ∀ past r token rest, events = past ++ .unregister (some r) token true :: rest →
        ∀ i, ((historyAfter past).status i).hasToken r token = true →
          i ∉ rest.filterMap FinalizationEvent.taken := by
  obtain ⟨⟨chains, queue, ht⟩, hall⟩ := finalizationRun_tracks hrun
  have hanswers : ∀ past event rest, events = past ++ event :: rest →
      FinalizationAnswers (historyAfter past) event := fun past event rest heq =>
    (hall past event rest heq).1
  -- What one operation consumed is not taken by those after it.
  have hconsumed : ∀ past event rest i, events = past ++ event :: rest →
      ((historyAfter past).status i).isOpen = true →
      (historyStep (historyAfter past) event).status i = .consumed →
      (historyAfter past).registrations ≤ (historyStep (historyAfter past) event).registrations →
      i ∉ rest.filterMap FinalizationEvent.taken := by
    intro past event rest i heq hopen hi hle
    have hlt : i < (historyAfter past).registrations := by
      by_contra hge
      rw [(hall past event rest heq).2 i (by omega)] at hopen
      cases hopen
    apply @not_taken_of_consumed _ _ (past ++ [event]) rest i
    · rw [append_assoc, singleton_append, ← heq]
      exact hanswers
    · rw [historyAfter_concat]
      exact hi
    · rw [historyAfter_concat]
      omega
  refine ⟨⟨chains, queue, ht.describes⟩, hanswers, ?_, ?_⟩
  · intro past request cleanup rest heq
    obtain ⟨⟨b, r, holdings, token, hdue, -⟩, -⟩ := hanswers past _ rest heq
    apply hconsumed past _ rest _ heq
    · rw [hdue]
      rfl
    · exact update_self _ _ _
    · exact Nat.le_refl _
  · intro past r token rest heq i hi
    have hheap : token.isHeap = true := ((hanswers past _ rest heq).mp rfl).1
    apply hconsumed past _ rest i heq (RegistrationStatus.isOpen_of_hasToken hi)
    · rw [historyStep, if_pos hheap]
      exact if_pos hi
    · exact Nat.le_of_eq (by rw [historyStep, if_pos hheap])

/-- A blank memory. -/
def blankFinalizations : Finalizations ℕ :=
  Finalizations.start
    (fun _ =>
      { next := none
        queueNext := none
        registry := 0
        target := .undefined
        holdings := .undefined
        unregisterToken := .undefined
        registrationOrder := 0
        queued := false
        processed := false }) fun _ => ⟨none, none⟩

/-- A run in which a target dies and its cleanup is taken. -/
theorem finalizationRun_correct_taken : ∃ s : Finalizations ℕ, ∃ chains queue,
    s.Describes (historyAfter
      [.create 0, .register 0 7 (.immediate 3) .undefined,
        .collect ⟨fun _ => true, fun _ => true, fun _ => false⟩,
        .take none (some ⟨0, 0, .immediate 3⟩)]) chains queue := by
  have hcreate := FinalizationStep.create (s := blankFinalizations) (r := 0) (by simp
    [blankFinalizations, Finalizations.start])
  have hregister := @FinalizationStep.register ℕ _ (finalizationRegistryCreate blankFinalizations 0)
    _ 0 7 (.immediate 3) .undefined ⟨some 5, none⟩ mem_cons_self
    (by simp [blankFinalizations, Finalizations.start, finalizationRegistryCreate]) rfl
  have hrun := (((Steps.single hcreate).snoc hregister).snoc
    (@FinalizationStep.collect ℕ _ _ _ ⟨fun _ => true, fun _ => true, fun _ => false⟩
      (by constructor <;> intros <;> rfl) rfl)).snoc (@FinalizationStep.take ℕ _ _ _ none _ rfl)
  obtain ⟨hdescribes, -⟩ := finalizationRun_correct hrun
  exact ⟨_, hdescribes⟩

/-- A run in which a target dies, is not unregistered, and yet gets no cleanup, then or later:
its registry died as well. -/
theorem finalizationRun_dropped : ∃ s : Finalizations ℕ,
    Steps FinalizationStep blankFinalizations
      [.create 0, .register 0 7 (.immediate 3) .undefined,
        .collect ⟨fun _ => false, fun _ => false, fun _ => false⟩, .take none none] s ∧
      ∀ rest s', Steps FinalizationStep s rest s' →
        0 ∉ rest.filterMap FinalizationEvent.taken := by
  have hcreate := FinalizationStep.create (s := blankFinalizations) (r := 0) (by simp
    [blankFinalizations, Finalizations.start])
  have hregister := @FinalizationStep.register ℕ _ (finalizationRegistryCreate blankFinalizations 0)
    _ 0 7 (.immediate 3) .undefined ⟨some 5, none⟩ mem_cons_self
    (by simp [blankFinalizations, Finalizations.start, finalizationRegistryCreate]) rfl
  have hrun := (((Steps.single hcreate).snoc hregister).snoc
    (@FinalizationStep.collect ℕ _ _ _ ⟨fun _ => false, fun _ => false, fun _ => false⟩
      (by constructor <;> intros <;> simp_all [finalizationRegistryCreate, blankFinalizations,
        Finalizations.start]) rfl)).snoc (@FinalizationStep.take ℕ _ _ _ none _ rfl)
  refine ⟨_, hrun, fun rest s' hrest => ?_⟩
  obtain ⟨-, hall⟩ := finalizationRun_tracks (hrun.trans hrest)
  exact not_taken_of_consumed (fun before event after heq => (hall before event after heq).1) rfl
    (by decide)

end Oseo.RuntimeMemory
