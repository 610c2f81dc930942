import Oseo.RuntimeMemory.FinalizationRegistry
import Mathlib.Data.List.Perm.Subperm

/-!
# Registration, unregistration and cleanups

A registration appends one live cell to its registry's chain. An unregistration walks the
chain and consumes the live cells with its token; it unlinks nothing.
-/

namespace Oseo.RuntimeMemory

open List
open Oseo.Library

open Function

variable {T : Type} {s s' : Finalizations T} {h h' : FinalizationHistory T}
  {chains : RegistryRef → List CellRef} {queue : List CellRef}

section
variable (s) (c : CellRef) (f : FinalizationCell T → FinalizationCell T) (r : RegistryRef)
  (g : FinalizationRegistry → FinalizationRegistry)

@[simp] lemma setCell_cell (d : CellRef) :
    (s.setCell c f).cell d = if d = c then f (s.cell c) else s.cell d :=
  update_apply ..

@[simp] lemma setRegistry_registry (r' : RegistryRef) :
    (s.setRegistry r g).registry r' = if r' = r then g (s.registry r) else s.registry r' :=
  update_apply ..

end

/-! ## Registration -/

/-- What a successful registration changes. -/
structure Registers (s s' : Finalizations T) (r : RegistryRef) (c : CellRef) (target : T)
    (holdings token : HeapValue T) : Prop where
  cells : s'.cells = c :: s.cells
  registries : s'.registries = s.registries
  registry : s'.registry r =
    { cellHead := if (s.registry r).cellTail = none then some c else (s.registry r).cellHead
      cellTail := some c }
  registryOthers : ∀ r', r' ≠ r → s'.registry r' = s.registry r'
  cell : s'.cell c =
    { next := none
      queueNext := none
      registry := r
      target := .heap target
      holdings := holdings
      unregisterToken := token
      registrationOrder := s.nextFinalizationOrder
      queued := false
      processed := false }
  others : ∀ d, d ≠ c → s'.cell d =
    { s.cell d with
      next := if (s.registry r).cellTail = some d then some c else (s.cell d).next }
  head : s'.finalizationHead = s.finalizationHead
  tail : s'.finalizationTail = s.finalizationTail
  next : s'.nextFinalizationOrder = s.nextFinalizationOrder + 1
  pending : s'.finalizationPendingCount = s.finalizationPendingCount

/-- A registration fails and changes nothing, or it registers its target. -/
lemma finalizationRegisterToken_cases [DecidableEq T] {registry : Option RegistryRef}
    {target holdings token : HeapValue T} {env : RegisterEnvironment} {result : Option String}
    (hrun : finalizationRegisterToken s registry target holdings token env = (result, s'))
    (hfresh : ∀ r c, registry = some r → env.cell = some c → (s.registry r).cellTail ≠ some c) :
    (∃ error, result = some error ∧ s' = s) ∨
      (result = none ∧ ∃ r c t, registry = some r ∧ env.cell = some c ∧ target = .heap t ∧
        Registers s s' r c t holdings token) := by
  unfold finalizationRegisterToken at hrun
  cases registry with
  | none =>
    cases hrun
    exact .inl ⟨_, rfl, rfl⟩
  | some r =>
    dsimp only at hrun
    split at hrun
    · cases hrun
      exact .inl ⟨_, rfl, rfl⟩
    · next htarget =>
      split at hrun
      · cases hrun
        exact .inl ⟨_, rfl, rfl⟩
      · cases hcell : env.cell with
        | none =>
          rw [hcell] at hrun
          cases hrun
          exact .inl ⟨_, rfl, rfl⟩
        | some c =>
          rw [hcell] at hrun
          dsimp only at hrun
          split at hrun
          · next herror =>
            cases hrun
            obtain ⟨error, he⟩ := Option.isSome_iff_exists.mp herror
            exact .inl ⟨error, he, rfl⟩
          · obtain ⟨t, rfl⟩ : ∃ t, target = .heap t := by
              cases target with
              | heap t => exact ⟨t, rfl⟩
              | immediate bits => exact absurd (.inl rfl) htarget
            have hne := hfresh r c rfl hcell
            simp only [Prod.mk.injEq] at hrun
            obtain ⟨rfl, rfl⟩ := hrun
            refine .inr ⟨rfl, r, c, t, rfl, rfl, rfl, ?_⟩
            cases htail : (s.registry r).cellTail with
            | none =>
              constructor <;> simp_all
            | some x =>
              have hxc : x ≠ c := by
                intro heq
                rw [htail, heq] at hne
                exact hne rfl
              have hcx : c ≠ x := Ne.symm hxc
              constructor
              case others =>
                intro d hd
                by_cases hdx : d = x
                · simp [htail, hdx, hxc]
                · simp [htail, hd, hdx, Ne.symm hdx]
              all_goals simp_all

/-- The history with one more registration. -/
def FinalizationHistory.register (h : FinalizationHistory T) (r : RegistryRef) (target : T)
    (holdings token : HeapValue T) : FinalizationHistory T :=
  { h with
    registrations := h.registrations + 1
    status := Function.update h.status h.registrations (.watching r target holdings token) }

@[simp] lemma FinalizationHistory.register_self (h : FinalizationHistory T) (r : RegistryRef)
    (target : T) (holdings token : HeapValue T) :
    (h.register r target holdings token).status h.registrations =
      .watching r target holdings token :=
  update_self h.registrations _ h.status

lemma FinalizationHistory.register_of_ne (h : FinalizationHistory T) {r : RegistryRef}
    {target : T} {holdings token : HeapValue T} {i : ℕ} (hi : i ≠ h.registrations) :
    (h.register r target holdings token).status i = h.status i :=
  update_of_ne hi _ _

/-- A registration keeps the invariant: the new cell is the last on its chain. -/
theorem Finalizations.Tracks.register {r : RegistryRef} {c : CellRef} {target : T}
    {holdings token : HeapValue T} (ht : s.Tracks h chains queue) (hr : r ∈ s.registries)
    (hc : c ∉ s.cells) (hu : Registers s s' r c target holdings token) :
    s'.Tracks (h.register r target holdings token)
      (update chains r (chains r ++ [c])) queue := by
  have hne : ∀ d ∈ s.cells, d ≠ c := fun d hd hdc => hc (hdc ▸ hd)
  have hcell : ∀ d ∈ s.cells, s'.cell d =
      { s.cell d with
        next := if (s.registry r).cellTail = some d then some c else (s.cell d).next } :=
    fun d hd => hu.others d (hne d hd)
  have hold : ∀ d ∈ s.cells, (s'.cell d).queueNext = (s.cell d).queueNext ∧
      (s'.cell d).registry = (s.cell d).registry ∧ s'.order d = s.order d ∧
      (s'.cell d).queued = (s.cell d).queued ∧ s'.isLive d = s.isLive d := by
    intro d hd
    unfold Finalizations.order Finalizations.isLive
    rw [hcell d hd]
    exact ⟨rfl, rfl, rfl, rfl, rfl⟩
  have horder : s'.order c = h.registrations := by
    rw [← ht.registrations, Finalizations.order, hu.cell]
  have hstatus : ∀ d ∈ s.cells,
      (h.register r target holdings token).status (s.order d) = h.status (s.order d) := by
    intro d hd
    apply h.register_of_ne
    have := ht.orderLt d hd
    omega
  have hchainCells : ∀ r' ∈ s.registries, ∀ d ∈ chains r', d ∈ s.cells :=
    fun r' hr' d hd => (ht.chainMem r' hr' d hd).1
  have hcr : c ∉ chains r := fun hcr => hc (hchainCells r hr c hcr)
  have hnodup : (chains r).Nodup :=
    (ht.chainSorted r hr).imp fun hlt heq => by
      rw [heq] at hlt
      exact Nat.lt_irrefl _ hlt
  constructor
  case registrations =>
    rw [hu.next, ht.registrations]
    rfl
  case cellsNodup =>
    rw [hu.cells, nodup_cons]
    exact ⟨hc, ht.cellsNodup⟩
  case orderInj =>
    intro d hd e he heq
    rw [hu.cells, mem_cons] at hd he
    rcases hd with rfl | hd <;> rcases he with rfl | he
    · rfl
    · rw [horder, (hold e he).2.2.1] at heq
      have := ht.orderLt e he
      omega
    · rw [horder, (hold d hd).2.2.1] at heq
      have := ht.orderLt d hd
      omega
    · rw [(hold d hd).2.2.1, (hold e he).2.2.1] at heq
      exact ht.orderInj d hd e he heq
  case orderLt =>
    intro d hd
    show s'.order d < h.registrations + 1
    rw [hu.cells, mem_cons] at hd
    rcases hd with rfl | hd
    · omega
    · have := ht.orderLt d hd
      rw [(hold d hd).2.2.1]
      omega
  case status =>
    intro d hd
    rw [hu.cells, mem_cons] at hd
    rcases hd with rfl | hd
    · rw [horder, h.register_self, hu.cell]
      exact ⟨target, rfl, rfl⟩
    · rw [(hold d hd).2.2.1, hstatus d hd, hcell d hd]
      exact ht.status d hd
  case tracked =>
    intro i hi
    by_cases hin : i = h.registrations
    · refine ⟨c, by rw [hu.cells]; exact mem_cons_self, by rw [horder, hin], ?_⟩
      rw [Finalizations.isLive, hu.cell]
      rfl
    · rw [h.register_of_ne hin] at hi
      obtain ⟨d, hd, hdi, hlive⟩ := ht.tracked i hi
      refine ⟨d, by rw [hu.cells]; exact mem_cons_of_mem _ hd, ?_, ?_⟩
      · rw [(hold d hd).2.2.1, hdi]
      · rw [(hold d hd).2.2.2.2, hlive]
  case absent =>
    intro i hi
    have hi' : h.registrations + 1 ≤ i := hi
    rw [h.register_of_ne (by omega)]
    exact ht.absent i (by omega)
  case batch =>
    intro i b r' hold' tok hi
    by_cases hin : i = h.registrations
    · rw [hin, h.register_self] at hi
      cases hi
    · rw [h.register_of_ne hin] at hi
      exact ht.batch i b r' hold' tok hi
  case owner =>
    intro d hd
    rw [hu.registries]
    rw [hu.cells, mem_cons] at hd
    rcases hd with rfl | hd
    · rw [hu.cell]
      exact hr
    · rw [(hold d hd).2.1]
      exact ht.owner d hd
  case chained =>
    intro d hd hlive
    rw [hu.cells, mem_cons] at hd
    rcases hd with rfl | hd
    · rw [hu.cell, update_self]
      exact mem_append_right _ mem_cons_self
    · rw [(hold d hd).2.2.2.2] at hlive
      have hin := ht.chained d hd hlive
      rw [(hold d hd).2.1]
      by_cases hreg : (s.cell d).registry = r
      · rw [hreg, update_self]
        exact mem_append_left _ (hreg ▸ hin)
      · rw [update_of_ne hreg]
        exact hin
  case chain =>
    intro r' hr'
    rw [hu.registries] at hr'
    by_cases hrr : r' = r
    · rw [hrr, update_self, hu.registry]
      refine (ht.chain r hr).concat hcr ?_ ?_ (fun d hd => ?_) hnodup
      · rw [ht.chainTail r hr]
      · rw [hu.cell]
      · rw [hu.others d hd, ht.chainTail r hr]
    · rw [update_of_ne hrr, hu.registryOthers r' hrr]
      refine (ht.chain r' hr').congr fun d hd => ?_
      obtain ⟨hdc, hdr⟩ := ht.chainMem r' hr' d hd
      rw [hcell d hdc]
      show (if _ then _ else _) = _
      rw [if_neg]
      intro hlast
      rw [ht.chainTail r hr] at hlast
      have hmem := (ht.chainMem r hr d (lastOr_mem hlast)).2
      exact hrr (hdr.symm.trans hmem)
  case chainTail =>
    intro r' hr'
    rw [hu.registries] at hr'
    by_cases hrr : r' = r
    · rw [hrr, update_self, hu.registry, lastOr_concat]
    · rw [update_of_ne hrr, hu.registryOthers r' hrr]
      exact ht.chainTail r' hr'
  case chainMem =>
    intro r' hr' d hd
    rw [hu.registries] at hr'
    rw [hu.cells]
    have hkeep : ∀ r'' ∈ s.registries, d ∈ chains r'' →
        d ∈ c :: s.cells ∧ (s'.cell d).registry = r'' := by
      intro r'' hr'' hd'
      obtain ⟨hdc, hdr⟩ := ht.chainMem r'' hr'' d hd'
      exact ⟨mem_cons_of_mem _ hdc, by rw [(hold d hdc).2.1, hdr]⟩
    by_cases hrr : r' = r
    · rw [hrr, update_self, mem_append, mem_singleton] at hd
      rcases hd with hd | rfl
      · exact hrr ▸ hkeep r hr hd
      · exact ⟨mem_cons_self, by rw [hu.cell, hrr]⟩
    · rw [update_of_ne hrr] at hd
      exact hkeep r' hr' hd
  case chainSorted =>
    intro r' hr'
    rw [hu.registries] at hr'
    have hkeep : ∀ r'' ∈ s.registries,
        (chains r'').Pairwise fun d e => s'.order d < s'.order e := by
      intro r'' hr''
      refine (ht.chainSorted r'' hr'').imp_of_mem fun {d e} hd he hlt => ?_
      rw [(hold d (hchainCells r'' hr'' d hd)).2.2.1, (hold e (hchainCells r'' hr'' e he)).2.2.1]
      exact hlt
    by_cases hrr : r' = r
    · rw [hrr, update_self, pairwise_append]
      refine ⟨hkeep r hr, pairwise_singleton _ _, fun d hd e he => ?_⟩
      have hdc := hchainCells r hr d hd
      have := ht.orderLt d hdc
      rw [mem_singleton.mp he, horder, (hold d hdc).2.2.1]
      omega
    · rw [update_of_ne hrr]
      exact hkeep r' hr'
  case queueChain =>
    rw [hu.head]
    exact ht.queueChain.congr fun d hd => (hold d (ht.queueMem d hd).1).1
  case queueTail =>
    rw [hu.tail]
    exact ht.queueTail
  case queueNodup => exact ht.queueNodup
  case queueMem =>
    intro d hd
    obtain ⟨hdc, hq⟩ := ht.queueMem d hd
    rw [hu.cells, (hold d hdc).2.2.2.1]
    exact ⟨mem_cons_of_mem _ hdc, hq⟩
  case queuedMem =>
    intro d hd hq
    rw [hu.cells, mem_cons] at hd
    rcases hd with rfl | hd
    · rw [hu.cell] at hq
      cases hq
    · rw [(hold d hd).2.2.2.1] at hq
      exact ht.queuedMem d hd hq
  case queueSorted =>
    refine ht.queueSorted.imp_of_mem fun {d e} hd he hbefore hdlive helive => ?_
    have hdc := (ht.queueMem d hd).1
    have hec := (ht.queueMem e he).1
    rw [(hold d hdc).2.2.2.2] at hdlive
    rw [(hold e hec).2.2.2.2] at helive
    unfold FinalizationHistory.Before
    rw [(hold d hdc).2.2.1, (hold e hec).2.2.1, hstatus d hdc, hstatus e hec]
    exact hbefore hdlive helive
  case pending =>
    rw [hu.pending, ht.pending]
    apply countP_congr
    intro d hd
    rw [(hold d (ht.queueMem d hd).1).2.2.2.2]

/-! ## Unregistration -/

/-- The cells an unregistration consumes. -/
def Finalizations.hasToken [DecidableEq T] (s : Finalizations T) (token : HeapValue T)
    (c : CellRef) : Bool :=
  !(s.cell c).processed && decide ((s.cell c).unregisterToken = token)

lemma unregisterCell_consumes (s : Finalizations T) (c : CellRef) :
    Consumes s (unregisterCell s c) c := by
  unfold unregisterCell
  have hlinks := @setCell_sameLinks _ s c (fun cell =>
    { cell with
      processed := true
      target := .undefined
      holdings := .undefined
      unregisterToken := .undefined }) rfl rfl rfl rfl rfl
  by_cases hq : (s.cell c).queued = true
  · rw [if_pos hq]
    constructor
    case toSameLinks => exact hlinks _
    case others =>
      intro d hd
      simp [hd]
    all_goals simp [hq]
  · rw [if_neg hq]
    constructor
    case toSameLinks => exact hlinks s.finalizationPendingCount
    case others =>
      intro d hd
      simp [hd]
    all_goals simp [hq]

/-- The walk over the rest `b` of a registry's chain. -/
lemma unregisterCells_tracks [DecidableEq T] {r : RegistryRef} {token : HeapValue T}
    {b : List CellRef} {fuel : ℕ} {removed : Bool} (ht : s.Tracks h chains queue)
    (hfuel : b.length ≤ fuel) (hchain : Chain (fun c => (s.cell c).next) b.head? b none)
    (hb : ∀ c ∈ b, c ∈ s.cells ∧ (s.cell c).registry = r) (hnodup : b.Nodup) :
    ∃ s' h', unregisterCells token fuel b.head? removed s =
        some (removed || b.any (s.hasToken token), s') ∧
      s'.Tracks h' chains queue ∧ s'.registries = s.registries ∧
      h'.registrations = h.registrations ∧ h'.collections = h.collections ∧
      ∀ i, h'.status i =
        if (h.status i).hasToken r token = true ∧ ∃ c ∈ b, s.order c = i then .consumed
        else h.status i := by
  induction b generalizing fuel removed s h with
  | nil =>
    refine ⟨s, h, ?_, ht, rfl, rfl, rfl, fun i => ?_⟩
    · cases fuel <;> simp [unregisterCells]
    · simp
  | cons c b ih =>
    obtain _ | fuel := fuel
    · cases hfuel
    have hfuel' : b.length ≤ fuel := by simpa using hfuel
    have hnext : (s.cell c).next = b.head? := hchain.2.head_eq
    have hrest : Chain (fun c => (s.cell c).next) b.head? b none := hnext ▸ hchain.2
    obtain ⟨hmem, hreg⟩ := hb c mem_cons_self
    rw [nodup_cons] at hnodup
    have htoken := (ht.status c hmem).hasToken r token
    rw [head?_cons, unregisterCells, any_cons]
    by_cases hhit : s.hasToken token c = true
    · have hhit' : (s.cell c).processed = false ∧ (s.cell c).unregisterToken = token := by
        simpa [Finalizations.hasToken] using hhit
      rw [if_neg (by simp [hhit'])]
      -- The cell is consumed, and the links stay as they are.
      have hc := unregisterCell_consumes s c
      have ht₁ := ht.consume hmem (by simp [Finalizations.isLive, hhit']) hc
      obtain ⟨s', h', hrun, htracks, hregs, hregistrations, hcollections, hstatus⟩ :=
        @ih _ _ fuel true ht₁ hfuel' (hrest.congr fun d _ => hc.next d)
          (by
            intro d hd
            rw [hc.cells, hc.owner]
            exact hb d (mem_cons_of_mem _ hd)) hnodup.2
      refine ⟨s', h', ?_, htracks, hregs.trans hc.registries, hregistrations, hcollections, ?_⟩
      · rw [hnext, hrun, hhit]
        simp
      · intro i
        rw [hstatus]
        simp only [hc.order]
        by_cases hi : i = s.order c
        · have hconsumed : (if (h.status i).hasToken r token = true ∧
              ∃ d ∈ c :: b, s.order d = i then .consumed else h.status i) =
              .consumed := by
            rw [hi]
            exact if_pos ⟨htoken.mpr ⟨hhit'.1, hreg, hhit'.2⟩, c, mem_cons_self, rfl⟩
          rw [hconsumed, hi, h.consume_self]
          split <;> rfl
        · rw [h.consume_of_ne hi]
          apply if_congr _ rfl rfl
          simp [Ne.symm hi]
    · have hmiss : (s.cell c).processed = true ∨ (s.cell c).unregisterToken ≠ token := by
        by_contra hcon
        push Not at hcon
        exact hhit (by simp [Finalizations.hasToken, hcon])
      rw [if_pos hmiss]
      obtain ⟨s', h', hrun, htracks, hregs, hregistrations, hcollections, hstatus⟩ :=
        @ih _ _ fuel removed ht hfuel' hrest (fun d hd => hb d (mem_cons_of_mem _ hd)) hnodup.2
      refine ⟨s', h', ?_, htracks, hregs, hregistrations, hcollections, ?_⟩
      · rw [hnext, hrun, Bool.eq_false_iff.mpr hhit]
        simp
      · intro i
        rw [hstatus]
        apply if_congr _ rfl rfl
        constructor
        · rintro ⟨hi, d, hd, hdi⟩
          exact ⟨hi, d, mem_cons_of_mem _ hd, hdi⟩
        · rintro ⟨hi, d, hd, hdi⟩
          refine ⟨hi, d, ?_, hdi⟩
          rcases mem_cons.mp hd with rfl | hd
          · rw [← hdi, htoken] at hi
            rcases hmiss with hp | hne
            · rw [hp] at hi
              cases hi.1
            · exact absurd hi.2.2 hne
          · exact hd

lemma Finalizations.Tracks.chain_nodup (ht : s.Tracks h chains queue) {r : RegistryRef}
    (hr : r ∈ s.registries) : (chains r).Nodup :=
  (ht.chainSorted r hr).imp fun hlt heq => by
    rw [heq] at hlt
    exact Nat.lt_irrefl _ hlt

/-- A chain is no longer than the heap. -/
lemma Finalizations.Tracks.chain_length (ht : s.Tracks h chains queue) {r : RegistryRef}
    (hr : r ∈ s.registries) : (chains r).length ≤ s.cells.length :=
  (List.subperm_of_subset (ht.chain_nodup hr) fun c hc => (ht.chainMem r hr c hc).1).length_le

/-- The registrations with a token are those of live cells on the registry's chain. -/
lemma Finalizations.Tracks.hasToken_iff [DecidableEq T] (ht : s.Tracks h chains queue)
    {r : RegistryRef} (hr : r ∈ s.registries) (token : HeapValue T) (i : ℕ) :
    (h.status i).hasToken r token = true ↔
      ∃ c ∈ chains r, s.order c = i ∧ s.hasToken token c = true := by
  constructor
  · intro hi
    obtain ⟨c, hc, hci, hlive⟩ := ht.tracked i (RegistrationStatus.isOpen_of_hasToken hi)
    rw [← hci, (ht.status c hc).hasToken] at hi
    refine ⟨c, hi.2.1 ▸ ht.chained c hc hlive, hci, ?_⟩
    simp [Finalizations.hasToken, hi]
  · intro ⟨c, hc, hci, hhit⟩
    obtain ⟨hmem, hreg⟩ := ht.chainMem r hr c hc
    rw [← hci, (ht.status c hmem).hasToken]
    have : (s.cell c).processed = false ∧ (s.cell c).unregisterToken = token := by
      simpa [Finalizations.hasToken] using hhit
    exact ⟨this.1, hreg, this.2⟩

/-- An unregistration ends, consumes the registrations with its token and tells whether there
were any. -/
lemma Finalizations.Tracks.unregister [DecidableEq T] (ht : s.Tracks h chains queue)
    {registry : Option RegistryRef} (hregistry : ∀ r, registry = some r → r ∈ s.registries)
    (token : HeapValue T) :
    ∃ removed s', finalizationUnregister s registry token = some (removed, s') ∧
      FinalizationAnswers h (.unregister registry token removed) ∧
      s'.Tracks (historyStep h (.unregister registry token removed)) chains queue ∧
      s'.registries = s.registries := by
  unfold finalizationUnregister
  cases registry with
  | none => exact ⟨false, s, rfl, by simp [FinalizationAnswers], ht, rfl⟩
  | some r =>
    dsimp only
    by_cases hheap : token.isHeap = false
    · rw [if_pos hheap]
      refine ⟨false, s, rfl, by simp [FinalizationAnswers, hheap], ?_, rfl⟩
      rw [historyStep, if_neg (by simp [hheap])]
      exact ht
    · have hr := hregistry r rfl
      have hchain := ht.chain r hr
      rw [if_neg hheap, hchain.head_eq]
      obtain ⟨s', h', hrun, htracks, hregs, hregistrations, hcollections, hstatus⟩ :=
        @unregisterCells_tracks _ _ _ _ _ _ r token (chains r) s.cells.length false ht
          (ht.chain_length hr) (hchain.head_eq ▸ hchain) (ht.chainMem r hr) (ht.chain_nodup hr)
      refine ⟨_, s', hrun, ?_, ?_, hregs⟩
      · show _ ↔ _
        rw [Bool.false_or, any_eq_true]
        constructor
        · rintro ⟨c, hc, hhit⟩
          exact ⟨by simpa using hheap, r, rfl, s.order c,
            (ht.hasToken_iff hr token _).mpr ⟨c, hc, rfl, hhit⟩⟩
        · rintro ⟨_, r', hr', i, hi⟩
          cases hr'
          obtain ⟨c, hc, -, hhit⟩ := (ht.hasToken_iff hr token i).mp hi
          exact ⟨c, hc, hhit⟩
      · have hh : h' = historyStep h (.unregister (some r) token
            (false || (chains r).any (s.hasToken token))) := by
          rw [historyStep, if_pos (by simpa using hheap)]
          cases h'
          simp only [FinalizationHistory.mk.injEq]
          refine ⟨hregistrations, hcollections, funext fun i => ?_⟩
          have hi := hstatus i
          dsimp only at hi
          rw [hi]
          apply if_congr _ rfl rfl
          constructor
          · exact fun hcon => hcon.1
          · intro hhas
            obtain ⟨c, hc, hci, -⟩ := (ht.hasToken_iff hr token i).mp hhas
            exact ⟨hhas, c, hc, hci⟩
        rw [← hh]
        exact htracks

/-! ## Taking a cleanup

A request walks the cleanup queue. It drops the consumed cells it meets, passes over live cells
of other registries, and takes the first live cell of its own: the first registration due.
-/

/-! ## Leaving the queue -/

/-- What dropping the cell behind `last` from the queue changes. -/
structure Dequeues (s s' : Finalizations T) (last : Option CellRef) (c : CellRef) : Prop where
  cells : s'.cells = s.cells
  registries : s'.registries = s.registries
  registry : s'.registry = s.registry
  next : s'.nextFinalizationOrder = s.nextFinalizationOrder
  pending : s'.finalizationPendingCount = s.finalizationPendingCount
  head : s'.finalizationHead = if last = none then (s.cell c).queueNext else s.finalizationHead
  tail : s'.finalizationTail = if s.finalizationTail = some c then last else s.finalizationTail
  cell : s'.cell c = { s.cell c with queueNext := none, queued := false }
  others : ∀ d, d ≠ c → s'.cell d =
    { s.cell d with
      queueNext := if last = some d then (s.cell c).queueNext else (s.cell d).queueNext }

lemma Dequeues.sameChains {last : Option CellRef} {c : CellRef} (hu : Dequeues s s' last c) :
    SameChains s s' ∧ ∀ d, s'.isLive d = s.isLive d := by
  have hsame : ∀ d, (s'.cell d).next = (s.cell d).next ∧
      (s'.cell d).registry = (s.cell d).registry ∧ s'.order d = s.order d ∧
        s'.isLive d = s.isLive d := by
    intro d
    unfold Finalizations.order Finalizations.isLive
    by_cases hdc : d = c
    · rw [hdc, hu.cell]
      exact ⟨rfl, rfl, rfl, rfl⟩
    · rw [hu.others d hdc]
      exact ⟨rfl, rfl, rfl, rfl⟩
  exact ⟨⟨hu.cells, hu.registries, hu.registry, hu.next, fun d => (hsame d).1,
    fun d => (hsame d).2.1, fun d => (hsame d).2.2.1⟩, fun d => (hsame d).2.2.2⟩

/-- Dropping a consumed cell changes the queue only. -/
lemma Finalizations.Tracks.dequeue {a b : List CellRef} {c : CellRef}
    (ht : s.Tracks h chains (a ++ c :: b)) (hdead : s.isLive c = false)
    (hu : Dequeues s s' (lastOr none a) c) : s'.Tracks h chains (a ++ b) := by
  obtain ⟨hnodup, hca, hcb, -⟩ := nodup_middle ht.queueNodup
  have hsub : ∀ d ∈ a ++ b, d ∈ a ++ c :: b ∧ d ≠ c := by
    intro d hd
    rcases mem_append.mp hd with hd | hd
    · exact ⟨mem_append_left _ hd, fun hdc => hca (hdc ▸ hd)⟩
    · exact ⟨mem_append_right _ (mem_cons_of_mem _ hd), fun hdc => hcb (hdc ▸ hd)⟩
  have hqueued : ∀ d, d ≠ c → (s'.cell d).queued = (s.cell d).queued := by
    intro d hd
    rw [hu.others d hd]
  obtain ⟨hsame, hlive⟩ := hu.sameChains
  apply ht.requeue hsame
  case hregistrations => rfl
  case hlive => exact fun d hd => (hlive d).symm.trans hd
  case hstatus =>
    intro d hd
    have hs := ht.status d hd
    by_cases hdc : d = c
    · rw [hdc, hu.cell]
      rw [hdc] at hs
      unfold FinalizationCell.HasStatus at hs ⊢
      rw [if_pos (by simpa [Finalizations.isLive] using hdead)] at hs ⊢
      exact hs
    · rw [hu.others d hdc]
      exact hs
  case htracked => simpa only [hlive] using ht.tracked
  case habsent => exact ht.absent
  case hbatch => exact ht.batch
  case hchain =>
    refine ht.queueChain.unlink ht.queueNodup hu.head fun d hd => ?_
    rw [hu.others d hd]
  case htail =>
    rw [hu.tail, ht.queueTail]
    cases b with
    | nil => simp
    | cons d b =>
      have hlast : lastOr none (a ++ c :: d :: b) = lastOr none (a ++ d :: b) := by
        simp [lastOr]
      rw [hlast, if_neg]
      exact fun heq => (hsub c (lastOr_mem heq)).2 rfl
  case hnodup => exact hnodup
  case hmem =>
    intro d hd
    obtain ⟨hmem, hdc⟩ := hsub d hd
    rw [hqueued d hdc]
    exact ht.queueMem d hmem
  case hqueued =>
    intro d hd hq
    by_cases hdc : d = c
    · rw [hdc, hu.cell] at hq
      cases hq
    · rw [hqueued d hdc] at hq
      have hmem := ht.queuedMem d hd hq
      rcases mem_append.mp hmem with hmem | hmem
      · exact mem_append_left _ hmem
      · exact mem_append_right _ ((mem_cons.mp hmem).resolve_left hdc)
  case hsorted =>
    simpa only [hlive] using ht.queueSorted.sublist
      (List.Sublist.append (List.Sublist.refl a) (sublist_cons_self c b))
  case hpending =>
    rw [hu.pending, ht.pending, funext hlive, countP_append, countP_append, countP_cons, hdead]
    rfl

lemma dequeueCell_dequeues {last : Option CellRef} {c : CellRef} (hlast : last ≠ some c) :
    Dequeues s (dequeueCell s last c) last c := by
  unfold dequeueCell
  cases last with
  | none =>
    by_cases htail : s.finalizationTail = some c
    · constructor <;> simp_all
    · constructor <;> simp_all
  | some p =>
    have hpc : p ≠ c := fun heq => hlast (congrArg some heq)
    have hcp : c ≠ p := Ne.symm hpc
    by_cases htail : s.finalizationTail = some c
    all_goals
      constructor
      case others =>
        intro d hd
        by_cases hdp : d = p
        · simp [htail, hdp, hpc]
        · simp [htail, hd, hdp, Ne.symm hdp]
      all_goals simp_all

lemma consumeCell_consumes {c : CellRef} (hqueued : (s.cell c).queued = true) :
    Consumes s (consumeCell s c) c := by
  unfold consumeCell
  constructor
  case toSameLinks => exact setCell_sameLinks s rfl rfl rfl rfl rfl _
  case others =>
    intro d hd
    simp [hd]
  all_goals simp [hqueued]

/-- Consuming a cell and unlinking it can be done in either order. -/
lemma consumeCell_dequeueCell {last : Option CellRef} {c : CellRef} (hlast : last ≠ some c) :
    Dequeues (consumeCell s c) (consumeCell (dequeueCell s last c) c) last c := by
  have hu := @dequeueCell_dequeues _ s last c hlast
  constructor
  case cells => exact hu.cells
  case registries => exact hu.registries
  case registry => exact hu.registry
  case next => exact hu.next
  case pending =>
    show (dequeueCell s last c).finalizationPendingCount - 1 = _
    rw [hu.pending]
    rfl
  case head =>
    show (dequeueCell s last c).finalizationHead = _
    rw [hu.head]
    simp [consumeCell]
  case tail =>
    show (dequeueCell s last c).finalizationTail = _
    rw [hu.tail]
    rfl
  case cell => simp [consumeCell, hu.cell]
  case others =>
    intro d hd
    simp [consumeCell, hd, hu.others d hd]

/-! ## The walk -/

/-- The walk over the rest `b` of the queue, with the cells in `a` passed over. -/
lemma takeQueuedCells_tracks [DecidableEq T] {registry : Option RegistryRef} {a b : List CellRef}
    {fuel : ℕ} (ht : s.Tracks h chains (a ++ b)) (hfuel : b.length ≤ fuel)
    (ha : ∀ c ∈ a, s.isLive c = true → ¬(registry = none ∨
      registry = some (s.cell c).registry)) :
    ∃ result s' queue', takeQueuedCells registry fuel (lastOr none a) b.head? s =
        some (result, s') ∧
      TakeAnswers h registry result ∧
      s'.Tracks (historyStep h (.take registry result)) chains queue' ∧
      s'.registries = s.registries := by
  induction b generalizing a fuel s with
  | nil =>
    rw [append_nil] at ht
    refine ⟨none, s, a, ?_, ?_, ht, rfl⟩
    · cases fuel <;> rfl
    · intro i hdue
      obtain ⟨c, hc, -, hlive, hr⟩ := (ht.isDue registry i).mp hdue
      exact ha c hc hlive hr
  | cons c b ih =>
    obtain _ | fuel := fuel
    · cases hfuel
    have hfuel' : b.length ≤ fuel := by simpa using hfuel
    have hc : c ∈ a ++ c :: b := mem_append_right _ mem_cons_self
    obtain ⟨hmem, hqueued⟩ := ht.queueMem c hc
    have hnext : (s.cell c).queueNext = b.head? := (chain_middle.mp ht.queueChain).2.head_eq
    obtain ⟨-, hca, -, -⟩ := nodup_middle ht.queueNodup
    have hlast : lastOr none a ≠ some c := fun heq => hca (lastOr_mem heq)
    have hmatched : (!(s.cell c).processed &&
        (registry.isNone || registry == some (s.cell c).registry)) = true ↔
        s.isLive c = true ∧ (registry = none ∨ registry = some (s.cell c).registry) := by
      simp
    rw [head?_cons, takeQueuedCells, hnext]
    by_cases hlive : s.isLive c = true
    · have hprocessed : (s.cell c).processed = false := by simpa using hlive
      by_cases hr : registry = none ∨ registry = some (s.cell c).registry
      · -- The first live cell of the registry is taken.
        have htrue := hmatched.mpr ⟨hlive, hr⟩
        rw [if_neg (by simp [htrue]), if_neg (by simp [htrue])]
        obtain ⟨batch, hdue⟩ := (ht.status c hmem).of_queued hprocessed hqueued
        have ht₁ := ht.consume hmem hlive (consumeCell_consumes hqueued)
        have hu := @consumeCell_dequeueCell _ s (lastOr none a) c hlast
        have hdead : (consumeCell s c).isLive c = false := by
          simp [consumeCell]
        refine ⟨_, _, a ++ b, rfl, ⟨⟨batch, _, _, _, hdue, hr⟩, ⟨batch, _, hdue⟩, ?_⟩,
          ht₁.dequeue hdead hu, ?_⟩
        · intro j hj
          obtain ⟨d, hd, hdj, hdlive, hdr⟩ := (ht.isDue registry j).mp hj
          rcases mem_append.mp hd with hd | hd
          · exact absurd hdr (ha d hd hdlive)
          · rcases mem_cons.mp hd with rfl | hd
            · exact Or.inl hdj.symm
            · have hsorted := (pairwise_append.mp ht.queueSorted).2.1
              rw [← hdj]
              exact Or.inr ((pairwise_cons.mp hsorted).1 d hd hlive hdlive)
        · rw [hu.registries]
          rfl
      · -- A live cell of another registry stays.
        have hfalse : (!(s.cell c).processed &&
            (registry.isNone || registry == some (s.cell c).registry)) = false := by
          rw [Bool.eq_false_iff]
          exact fun htrue => hr (hmatched.mp htrue).2
        rw [if_pos ⟨hprocessed, hfalse⟩, ← lastOr_concat none a c]
        have hassoc : a ++ c :: b = (a ++ [c]) ++ b := by simp
        apply ih (hassoc ▸ ht) hfuel'
        intro d hd hdlive
        rcases mem_append.mp hd with hd | hd
        · exact ha d hd hdlive
        · rw [mem_singleton.mp hd]
          exact hr
    · -- A consumed cell leaves the queue.
      have hdead : s.isLive c = false := Bool.eq_false_iff.mpr hlive
      have hprocessed : (s.cell c).processed = true := by simpa using hdead
      rw [if_neg (by simp [hprocessed]), if_pos (by simp [hprocessed])]
      have hu := @dequeueCell_dequeues _ s (lastOr none a) c hlast
      obtain ⟨result, s', queue', hrun, hanswers, htracks, hregs⟩ :=
        @ih (dequeueCell s (lastOr none a) c) a fuel (ht.dequeue hdead hu) hfuel' (by
          intro d hd hdlive
          rw [hu.sameChains.2] at hdlive
          rw [hu.sameChains.1.owner]
          exact ha d hd hdlive)
      exact ⟨result, s', queue', hrun, hanswers, htracks, hregs.trans hu.registries⟩

/-- A request for a cleanup ends, and takes the first registration due. -/
theorem Finalizations.Tracks.take [DecidableEq T] (ht : s.Tracks h chains queue)
    (registry : Option RegistryRef) :
    ∃ result s' queue', takeQueuedCleanup s registry = some (result, s') ∧
      FinalizationAnswers h (.take registry result) ∧
      s'.Tracks (historyStep h (.take registry result)) chains queue' ∧
      s'.registries = s.registries := by
  unfold takeQueuedCleanup
  rw [ht.queueChain.head_eq]
  apply @takeQueuedCells_tracks _ _ _ _ _ registry [] queue _ ht
  · exact (subperm_of_subset ht.queueNodup fun c hc => (ht.queueMem c hc).1).length_le
  · simp

end Oseo.RuntimeMemory
