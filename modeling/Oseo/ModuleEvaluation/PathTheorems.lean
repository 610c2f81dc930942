import Oseo.ModuleEvaluation.EndTheorems

/-!
# The path of the walk

That each step keeps `OnPath`: the activations in progress, the cycles not yet closed, and
the low links between them.
-/

namespace Oseo.ModuleEvaluation

open Prod (fst)
open List

variable {n : ℕ} {V : Type} {g : ModuleGraph n} {events : List (ModuleEvent n V)}
  {s s' : ModuleState n V} {path : List (Fin n × List (Fin n))} {index : ℕ}

/-! ## Requests behind an activation -/

/-- A request stays behind an activation while indexes stay, ancestor indexes fall, roots
stay, and modules off the stack stay finished or waiting. -/
lemma ModuleState.StackEdge.mono {path' : List (Fin n × List (Fin n))} {m r : Fin n}
    (he : s.StackEdge path m r)
    (hr : s.status r = .evaluating → s'.status r = .evaluating ∧ s'.dfsIndex r = s.dfsIndex r ∧
      ∀ f ∈ path', s.dfsIndex m < s'.dfsIndex f.1 → s.dfsIndex r < s'.dfsIndex f.1 ∨ f ∈ path ∧
        s'.dfsIndex f.1 = s.dfsIndex f.1)
    (hm : s'.dfsIndex m = s.dfsIndex m) (hlow : s'.ancestor m ≤ s.ancestor m)
    (hoff : s.Off r → s'.Off r ∧ s'.moduleCycleRoot r = s.moduleCycleRoot r)
    (hfin : ∀ x, s.Finished x → s'.Finished x)
    (hasync : ∀ x, s.status x = .evaluatingAsync → s'.status x = .evaluatingAsync)
    (hparents : ∀ x p, p ∈ s.parents x → p ∈ s'.parents x) : s'.StackEdge path' m r := by
  rcases he with ⟨hst, hle, hpath⟩ | ⟨hro, hrest⟩
  · obtain ⟨hst', hidx, hpath'⟩ := hr hst
    refine .inl ⟨hst', hidx ▸ hlow.trans hle, fun f hf hlt => ?_⟩
    rw [hm] at hlt
    rw [hidx]
    rcases hpath' f hf hlt with h | ⟨hmem, hfi⟩
    · exact h
    · rw [hfi] at hlt ⊢
      exact hpath f hmem hlt
  · obtain ⟨hro', hroot⟩ := hoff hro
    refine .inr ⟨hro', ?_⟩
    rw [hroot]
    rcases hrest with hf | ⟨ha, hp⟩
    · exact .inl (hfin _ hf)
    · exact .inr ⟨hasync _ ha, hparents _ _ hp⟩

/-- A request stays behind an activation while the table stays and the path shrinks. -/
lemma ModuleState.StackEdge.of_path {path' : List (Fin n × List (Fin n))} {m r : Fin n}
    (he : s.StackEdge path m r)
    (h : ∀ f ∈ path', ∃ f' ∈ path, f'.1 = f.1) : s.StackEdge path' m r := by
  rcases he with ⟨hst, hle, hpath⟩ | he
  · refine .inl ⟨hst, hle, fun f hf hlt => ?_⟩
    obtain ⟨f', hf', hff⟩ := h f hf
    rw [← hff] at hlt ⊢
    exact hpath f' hf' hlt
  · exact .inr he

/-! ## Steps at one activation -/

section
variable (h : OnPath g s path index)
include h

/-- The table changes at most in the order, parents and pending count of a module on the
path, and in the calls. -/
lemma OnPath.congr {m : Fin n} (hm : m ∈ path.map fst)
    (hstatus : ∀ y, s'.status y = s.status y) (herrored : ∀ y, s'.errored y = s.errored y)
    (hroot : ∀ y, s'.cycleRoot y = s.cycleRoot y)
    (hindex : ∀ y, s'.dfsIndex y = s.dfsIndex y)
    (hancestor_m : s'.ancestor m ≤ s.ancestor m)
    (hlow : ∃ u, s.status u = .evaluating ∧ s.dfsIndex u = s'.ancestor m ∧ g.Imports m u)
    (hancestor : ∀ y, y ≠ m → s'.ancestor y = s.ancestor y)
    (horder : ∀ y, y ≠ m → s'.order y = s.order y)
    (hpending : ∀ y, y ≠ m → s'.pending y = s.pending y)
    (hparents : ∀ y p, p ∈ s.parents y → p ∈ s'.parents y)
    (hparents' : ∀ y p, p ∈ s'.parents y → p ∈ s.parents y ∨
      (s.status y = .evaluating → p = m ∧ s'.ancestor m ≤ s.dfsIndex y))
    (hstack : s'.stack = s.stack) : OnPath g s' path index := by
  have hroot' : ∀ y, s'.moduleCycleRoot y = s.moduleCycleRoot y := fun y =>
    moduleCycleRoot_congr (hroot y)
  have hoff : ∀ y, s'.Off y ↔ s.Off y := by
    intro y
    rw [ModuleState.Off, ModuleState.Off, hstatus]
  have hfin : ∀ y, s.Finished y → s'.Finished y := fun y hy =>
    ⟨(hstatus y).trans hy.1, (herrored y).trans hy.2⟩
  have hle : ∀ y, s'.ancestor y ≤ s.ancestor y := by
    intro y
    by_cases hy : y = m
    · rw [hy]
      exact hancestor_m
    · rw [hancestor y hy]
  have hedge : ∀ y r, s.StackEdge path y r → s'.StackEdge path y r := by
    intro y r he
    refine he.mono ?_ (hindex y) (hle y) (fun hr => ⟨(hoff r).mpr hr, hroot' r⟩) hfin
      (fun x hx => by rw [hstatus, hx]) hparents
    intro hr
    exact ⟨by rw [hstatus, hr], hindex r, fun f hf _ => .inr ⟨hf, hindex _⟩⟩
  have hne : ∀ w, w ∉ path.map fst → w ≠ m := by
    rintro w hw rfl
    exact hw hm
  constructor
  case path_stack => simpa only [hstatus] using h.path_stack
  case path_index => simpa only [hindex] using h.path_index
  case path_done => exact fun f hf r hr => hedge _ _ (h.path_done f hf r hr)
  case stack_index => simpa only [hstack, hindex] using h.stack_index
  case index_lt => simpa only [hstatus, hindex] using h.index_lt
  case ancestor_le =>
    intro w hw
    rw [hstatus] at hw
    rw [hindex]
    exact (hle w).trans (h.ancestor_le w hw)
  case low =>
    intro w hw
    rw [hstatus] at hw
    simp only [hstatus, hindex]
    by_cases hwm : w = m
    · rw [hwm]
      exact hlow
    · rw [hancestor w hwm]
      exact h.low w hw
  case up => simpa only [hstatus, hindex] using h.up
  case down => simpa only [hstatus, hindex] using h.down
  case parents_low =>
    intro x p hx hp
    rw [hstatus] at hx
    rw [hindex]
    rcases hparents' x p hp with hp | hp
    · exact (hle p).trans (h.parents_low x p hx hp)
    · obtain ⟨rfl, hp⟩ := hp hx
      exact hp
  case off_ancestor =>
    intro w hw hwp
    rw [hstatus] at hw
    rw [hancestor w (hne w hwp), hindex]
    exact h.off_ancestor w hw hwp
  case off_done =>
    intro w hw hwp r hr
    rw [hstatus] at hw
    exact hedge _ _ (h.off_done w hw hwp r hr)
  case off_pending =>
    intro w hw hwp hpos
    rw [hstatus] at hw
    rw [hpending w (hne w hwp)] at hpos
    rw [horder w (hne w hwp)]
    exact h.off_pending w hw hwp hpos
  case off_nearest =>
    intro w hw hwp f hf hlt
    rw [hstatus] at hw
    rw [hindex, hindex] at hlt
    obtain ⟨f', hf', h₁, h₂, h₃⟩ := h.off_nearest w hw hwp f hf hlt
    refine ⟨f', hf', by rwa [hindex, hindex], by rwa [hindex, hindex], ?_⟩
    rw [hancestor w (hne w hwp)]
    exact (hle _).trans h₃
  case off_parent =>
    intro w hw hwp ho
    rw [hstatus] at hw
    rw [horder w (hne w hwp)] at ho
    obtain ⟨p, hp, hps, hpf⟩ := h.off_parent w hw hwp ho
    refine ⟨p, hparents w p hp, by rw [hstatus, hps], fun f hf hlt => ?_⟩
    rw [hindex, hindex] at hlt ⊢
    exact hpf f hf hlt

lemma OnPath.waits {m x : Fin n} (b : Waits s s' m x)
    (hm : m ∈ path.map fst) (hms : s.status m = .evaluating)
    (hx : s.status x = .evaluating → s.ancestor m ≤ s.dfsIndex x) : OnPath g s' path index := by
  refine h.congr hm b.status b.errored b.cycleRoot b.index (b.ancestor m).le ?_
    (fun y _ => b.ancestor y) (fun y _ => b.order y) b.pending_ne ?_ ?_ b.stack
  · rw [b.ancestor]
    exact h.low m hms
  · intro y p hp
    by_cases hy : y = x
    · rw [hy, b.parents_self]
      exact mem_append_left _ (hy ▸ hp)
    · rw [b.parents_ne y hy]
      exact hp
  · intro y p hp
    by_cases hy : y = x
    · subst hy
      rw [b.parents_self, mem_append, mem_singleton] at hp
      rcases hp with hp | rfl
      · exact .inl hp
      · refine .inr fun hys => ⟨rfl, ?_⟩
        rw [b.ancestor]
        exact hx hys
    · rw [b.parents_ne y hy] at hp
      exact .inl hp

lemma OnPath.orders {m : Fin n} (b : Orders s s' m)
    (hm : m ∈ path.map fst) (hms : s.status m = .evaluating) : OnPath g s' path index := by
  refine h.congr hm b.status b.errored b.cycleRoot b.index (b.ancestor m).le ?_
    (fun y _ => b.ancestor y) b.order_ne (fun y _ => b.pending y) ?_ ?_ b.stack
  · rw [b.ancestor]
    exact h.low m hms
  · exact fun y p hp => by rw [b.parents]; exact hp
  · exact fun y p hp => .inl (by rw [← b.parents]; exact hp)

lemma OnPath.calls {m : Fin n} {result : Result V}
    (b : Calls s s' m result) (hm : m ∈ path.map fst) (hms : s.status m = .evaluating) :
    OnPath g s' path index := by
  refine h.congr hm ?_ ?_ ?_ ?_ ?_ ?_ ?_ ?_ ?_ ?_ ?_ b.stack
  case refine_6 =>
    rw [ModuleState.ancestor, b.records]
    exact h.low m hms
  case refine_11 =>
    intro y p hp
    rw [ModuleState.parents, b.records] at hp
    exact Or.inl hp
  all_goals
    simp only [ModuleState.status, ModuleState.errored, ModuleState.cycleRoot,
      ModuleState.dfsIndex, ModuleState.ancestor, ModuleState.order, ModuleState.pending,
      ModuleState.parents, b.records, le_refl, imp_self, implies_true]

/-- The ancestor index of an activation falls to that of a module on the stack. -/
structure Lowers (s s' : ModuleState n V) (m : Fin n) (low : ℕ) : Prop extends
    Neutral s s' where
  pending : ∀ y, s'.pending y = s.pending y
  index : ∀ y, s'.dfsIndex y = s.dfsIndex y
  ancestor_self : s'.ancestor m = min (s.ancestor m) low
  ancestor_ne : ∀ y, y ≠ m → s'.ancestor y = s.ancestor y

lemma OnPath.lowers {m r : Fin n} (b : Lowers s s' m (s.ancestor r))
    (hm : m ∈ path.map fst) (hms : s.status m = .evaluating)
    (hr : s.status r = .evaluating) (hmr : g.Imports m r) : OnPath g s' path index := by
  have hle : s'.ancestor m ≤ s.ancestor m := b.ancestor_self ▸ min_le_left _ _
  refine h.congr hm b.status b.errored b.cycleRoot b.index hle ?_ b.ancestor_ne
    (fun y _ => b.order y) (fun y _ => b.pending y) ?_ ?_ b.stack
  · rw [b.ancestor_self]
    rcases min_choice (s.ancestor m) (s.ancestor r) with hmin | hmin
    · rw [hmin]
      exact h.low m hms
    · rw [hmin]
      obtain ⟨u, hu, hui, hru⟩ := h.low r hr
      exact ⟨u, hu, hui, hmr.trans hru⟩
  · exact fun y p hp => by rw [b.parents]; exact hp
  · exact fun y p hp => .inl (by rw [← b.parents]; exact hp)

/-! ## A new activation -/

lemma OnPath.begins (hc : Consistent g events s) {m : Fin n}
    (b : Begins s s' m index) (hm : ∀ f ∈ path.head?, m ∈ g.requested f.1) :
    OnPath g s' ((m, []) :: path) (index + 1) := by
  have hne : ∀ y, s.status y = .evaluating → y ≠ m := by
    rintro y hy rfl
    simp [b.linked] at hy
  have hst : ∀ y, y ≠ m → s'.status y = .evaluating → s.status y = .evaluating := by
    intro y hy hs
    rwa [b.status_ne y hy] at hs
  have hpath : ∀ f ∈ path, f.1 ≠ m := fun f hf => hne _ (h.path_stack f hf)
  have hlt : ∀ y, s.status y = .evaluating → s'.dfsIndex y < index := by
    intro y hy
    rw [b.index_ne y (hne y hy)]
    exact h.index_lt y hy
  have hroot : ∀ y, s'.moduleCycleRoot y = s.moduleCycleRoot y := fun y =>
    moduleCycleRoot_congr (b.cycleRoot y)
  have hasync : ∀ y, s.status y = .evaluatingAsync → s'.status y = .evaluatingAsync := by
    intro y hy
    rw [b.status_ne y (by rintro rfl; simp [b.linked] at hy), hy]
  have hevaluated : ∀ y, s.status y = .evaluated → s'.status y = .evaluated := by
    intro y hy
    rw [b.status_ne y (by rintro rfl; simp [b.linked] at hy), hy]
  have hedge : ∀ y r, y ≠ m → s.StackEdge path y r → s'.StackEdge ((m, []) :: path) y r := by
    intro y r hy he
    refine he.mono ?_ (b.index_ne y hy) (b.ancestor_ne y hy).le ?_ ?_ hasync ?_
    · intro hr
      refine ⟨by rw [b.status_ne r (hne r hr), hr], b.index_ne r (hne r hr), ?_⟩
      intro f hf _
      rcases mem_cons.mp hf with rfl | hf
      · rw [b.index_self]
        exact .inl (h.index_lt r hr)
      · exact .inr ⟨hf, b.index_ne _ (hpath f hf)⟩
    · intro hr
      refine ⟨?_, hroot r⟩
      rcases hr with hr | hr
      · exact .inl (hasync r hr)
      · exact .inr (hevaluated r hr)
    · exact fun y hy => ⟨hevaluated y hy.1, (b.errored y).trans hy.2⟩
    · exact fun y p hp => by rw [b.parents]; exact hp
  -- Every activation leads to the new one.
  have himports : ∀ f ∈ path, g.Imports f.1 m := by
    intro f hf
    cases hp : path with
    | nil =>
      rw [hp] at hf
      exact absurd hf not_mem_nil
    | cons f₀ rest =>
      have hf₀ : f₀ ∈ path := hp ▸ mem_cons_self
      have hle : s.dfsIndex f.1 ≤ s.dfsIndex f₀.1 := by
        have hpw := h.path_index
        rw [hp] at hpw hf
        rcases mem_cons.mp hf with rfl | hf
        · exact le_refl _
        · exact ((pairwise_cons.mp hpw).1 f hf).le
      refine (h.down f₀.1 (h.path_stack f₀ hf₀) f hf hle).trans ?_
      exact ModuleGraph.imports_of_mem (hm f₀ (by rw [hp]; rfl))
  have hoff : ∀ w, w ∉ ((m, []) :: path : List (Fin n × List (Fin n))).map fst →
      w ≠ m ∧ w ∉ path.map fst := by
    intro w hw
    rwa [map_cons, mem_cons, not_or] at hw
  constructor
  case path_stack =>
    intro f hf
    rcases mem_cons.mp hf with rfl | hf
    · exact b.status_self
    · rw [b.status_ne _ (hpath f hf)]
      exact h.path_stack f hf
  case path_index =>
    refine pairwise_cons.mpr ⟨fun f hf => ?_, ?_⟩
    · rw [b.index_self]
      exact hlt _ (h.path_stack f hf)
    · refine h.path_index.imp_of_mem fun {f f'} hf hf' hlt' => ?_
      rwa [b.index_ne _ (hpath f hf), b.index_ne _ (hpath f' hf')]
  case path_done =>
    intro f hf r hr
    rcases mem_cons.mp hf with rfl | hf
    · exact absurd hr not_mem_nil
    · exact hedge _ _ (hpath f hf) (h.path_done f hf r hr)
  case stack_index =>
    rw [b.stack]
    refine pairwise_cons.mpr ⟨fun y hy => ?_, ?_⟩
    · rw [b.index_self]
      exact hlt y ((hc.mem_stack y).mp hy)
    · refine h.stack_index.imp_of_mem fun {x y} hx hy hlt' => ?_
      rwa [b.index_ne x (hne x ((hc.mem_stack x).mp hx)),
        b.index_ne y (hne y ((hc.mem_stack y).mp hy))]
  case index_lt =>
    intro w hw
    by_cases hwm : w = m
    · rw [hwm, b.index_self]
      exact Nat.lt_succ_self _
    · exact (hlt w (hst w hwm hw)).trans (Nat.lt_succ_self _)
  case ancestor_le =>
    intro w hw
    by_cases hwm : w = m
    · rw [hwm, b.index_self, b.ancestor_self]
    · rw [b.index_ne w hwm, b.ancestor_ne w hwm]
      exact h.ancestor_le w (hst w hwm hw)
  case low =>
    intro w hw
    by_cases hwm : w = m
    · subst hwm
      exact ⟨w, b.status_self, by rw [b.index_self, b.ancestor_self], .refl w⟩
    · obtain ⟨u, hu, hui, hwu⟩ := h.low w (hst w hwm hw)
      refine ⟨u, by rw [b.status_ne u (hne u hu), hu], ?_, hwu⟩
      rw [b.index_ne u (hne u hu), b.ancestor_ne w hwm, hui]
  case up =>
    intro w hw
    by_cases hwm : w = m
    · subst hwm
      exact ⟨(w, []), mem_cons_self, le_refl _, .refl w⟩
    · obtain ⟨f, hf, hle, hwf⟩ := h.up w (hst w hwm hw)
      refine ⟨f, mem_cons_of_mem _ hf, ?_, hwf⟩
      rwa [b.index_ne _ (hpath f hf), b.index_ne w hwm]
  case down =>
    intro w hw f hf hle
    by_cases hwm : w = m
    · rw [hwm]
      rcases mem_cons.mp hf with rfl | hf
      · exact .refl m
      · exact himports f hf
    · have hws := hst w hwm hw
      rcases mem_cons.mp hf with rfl | hf
      · rw [b.index_self] at hle
        exact absurd (hlt w hws) (not_lt.mpr hle)
      · rw [b.index_ne _ (hpath f hf), b.index_ne w hwm] at hle
        exact h.down w hws f hf hle
  case parents_low =>
    intro x p hx hp
    rw [b.parents] at hp
    have hxm : x ≠ m := by
      rintro rfl
      exact hc.parent_order x p hp (hc.of_linked x b.linked).1
    have hxs := hst x hxm hx
    rw [b.index_ne x hxm, b.ancestor_ne p (hne p (hc.parent_stack x p hxs hp))]
    exact h.parents_low x p hxs hp
  case off_ancestor =>
    intro w hw hwp
    obtain ⟨hwm, hwp⟩ := hoff w hwp
    rw [b.index_ne w hwm, b.ancestor_ne w hwm]
    exact h.off_ancestor w (hst w hwm hw) hwp
  case off_done =>
    intro w hw hwp r hr
    obtain ⟨hwm, hwp⟩ := hoff w hwp
    exact hedge w r hwm (h.off_done w (hst w hwm hw) hwp r hr)
  case off_pending =>
    intro w hw hwp hpos
    obtain ⟨hwm, hwp⟩ := hoff w hwp
    rw [b.pending_ne w hwm] at hpos
    rw [b.order]
    exact h.off_pending w (hst w hwm hw) hwp hpos
  case off_nearest =>
    intro w hw hwp f hf hlt'
    obtain ⟨hwm, hwp⟩ := hoff w hwp
    have hws := hst w hwm hw
    rcases mem_cons.mp hf with rfl | hf
    · rw [b.index_self] at hlt'
      exact absurd (hlt w hws) (not_lt.mpr hlt'.le)
    · rw [b.index_ne _ (hpath f hf), b.index_ne w hwm] at hlt'
      obtain ⟨f', hf', h₁, h₂, h₃⟩ := h.off_nearest w hws hwp f hf hlt'
      refine ⟨f', mem_cons_of_mem _ hf', ?_⟩
      rw [b.index_ne _ (hpath f hf), b.index_ne _ (hpath f' hf'), b.index_ne w hwm,
        b.ancestor_ne _ (hpath f' hf'), b.ancestor_ne w hwm]
      exact ⟨h₁, h₂, h₃⟩
  case off_parent =>
    intro w hw hwp ho
    obtain ⟨hwm, hwp⟩ := hoff w hwp
    have hws := hst w hwm hw
    rw [b.order] at ho
    obtain ⟨p, hp, hps, hpf⟩ := h.off_parent w hws hwp ho
    refine ⟨p, by rw [b.parents]; exact hp, by rw [b.status_ne p (hne p hps), hps], ?_⟩
    intro f hf hlt'
    rcases mem_cons.mp hf with rfl | hf
    · rw [b.index_self] at hlt'
      exact absurd (hlt w hws) (not_lt.mpr hlt'.le)
    · rw [b.index_ne _ (hpath f hf), b.index_ne w hwm] at hlt'
      rw [b.index_ne _ (hpath f hf), b.index_ne p (hne p hps)]
      exact hpf f hf hlt'

end

/-! ## A request goes behind an activation -/

/-- The innermost activation has one more request behind it. -/
lemma OnPath.extend {m r : Fin n} {done : List (Fin n)}
    (h : OnPath g s ((m, done) :: path) index)
    (hr : s.StackEdge ((m, done) :: path) m r) :
    OnPath g s ((m, done ++ [r]) :: path) index := by
  -- Only the request list differs.
  have hmap : ((m, done ++ [r]) :: path : List (Fin n × List (Fin n))).map fst
      = ((m, done) :: path).map fst := rfl
  have hold : ∀ f ∈ ((m, done ++ [r]) :: path), ∃ f' ∈ ((m, done) :: path), f'.1 = f.1 := by
    intro f hf
    rcases mem_cons.mp hf with rfl | hf
    · exact ⟨(m, done), mem_cons_self, rfl⟩
    · exact ⟨f, mem_cons_of_mem _ hf, rfl⟩
  have hnew : ∀ f ∈ ((m, done) :: path), ∃ f' ∈ ((m, done ++ [r]) :: path), f'.1 = f.1 := by
    intro f hf
    rcases mem_cons.mp hf with rfl | hf
    · exact ⟨(m, done ++ [r]), mem_cons_self, rfl⟩
    · exact ⟨f, mem_cons_of_mem _ hf, rfl⟩
  constructor
  case path_stack =>
    intro f hf
    obtain ⟨f', hf', he⟩ := hold f hf
    exact he ▸ h.path_stack f' hf'
  case path_index =>
    have := pairwise_cons.mp h.path_index
    exact pairwise_cons.mpr ⟨this.1, this.2⟩
  case path_done =>
    intro f hf r' hr'
    rcases mem_cons.mp hf with rfl | hf
    · rcases mem_append.mp hr' with hr' | hr'
      · exact (h.path_done _ mem_cons_self r' hr').of_path hold
      · rw [mem_singleton] at hr'
        exact hr' ▸ hr.of_path hold
    · exact (h.path_done f (mem_cons_of_mem _ hf) r' hr').of_path hold
  case stack_index => exact h.stack_index
  case index_lt => exact h.index_lt
  case ancestor_le => exact h.ancestor_le
  case low => exact h.low
  case up =>
    intro w hw
    obtain ⟨f, hf, hle, hwf⟩ := h.up w hw
    obtain ⟨f', hf', he⟩ := hnew f hf
    exact ⟨f', hf', he ▸ hle, he ▸ hwf⟩
  case down =>
    intro w hw f hf hle
    obtain ⟨f', hf', he⟩ := hold f hf
    exact he ▸ h.down w hw f' hf' (he ▸ hle)
  case parents_low => exact h.parents_low
  case off_ancestor => exact fun w hw hwp => h.off_ancestor w hw (hmap ▸ hwp)
  case off_done => exact fun w hw hwp r hr => (h.off_done w hw (hmap ▸ hwp) r hr).of_path hold
  case off_pending => exact fun w hw hwp => h.off_pending w hw (hmap ▸ hwp)
  case off_nearest =>
    intro w hw hwp f hf hlt
    obtain ⟨f₁, hf₁, he₁⟩ := hold f hf
    obtain ⟨f₂, hf₂, h₁, h₂, h₃⟩ := h.off_nearest w hw (hmap ▸ hwp) f₁ hf₁ (he₁ ▸ hlt)
    obtain ⟨f₃, hf₃, he₃⟩ := hnew f₂ hf₂
    exact ⟨f₃, hf₃, by rw [he₃, ← he₁]; exact h₁, by rw [he₃]; exact h₂, by rw [he₃]; exact h₃⟩
  case off_parent =>
    intro w hw hwp ho
    obtain ⟨p, hp, hps, hpf⟩ := h.off_parent w hw (hmap ▸ hwp) ho
    refine ⟨p, hp, hps, fun f hf hlt => ?_⟩
    obtain ⟨f₁, hf₁, he₁⟩ := hold f hf
    rw [← he₁] at hlt ⊢
    exact hpf f₁ hf₁ hlt

/-- The activation of `c` returns to that of `m`, whose cycle it joins. -/
lemma OnPath.returns {c m : Fin n} {done : List (Fin n)}
    (h : OnPath g s ((c, g.requested c) :: (m, done) :: path) index)
    (hlow : s.ancestor c < s.dfsIndex c) (hm : s.ancestor m ≤ s.ancestor c)
    (hpending : 0 < s.pending c → s.order c ≠ asyncUnset)
    (hparent : s.order c ≠ asyncUnset → m ∈ s.parents c) :
    OnPath g s ((m, done) :: path) index := by
  have hsub : ∀ f ∈ (m, done) :: path, f ∈ (c, g.requested c) :: (m, done) :: path :=
    fun f hf => mem_cons_of_mem _ hf
  have hpw := pairwise_cons.mp h.path_index
  have hms := h.path_stack (m, done) (hsub _ mem_cons_self)
  have hcs := h.path_stack _ mem_cons_self
  have hmc := hpw.1 (m, done) mem_cons_self
  -- The activations that remain begin no later than that of `m`.
  have hle : ∀ f ∈ (m, done) :: path, s.dfsIndex f.1 ≤ s.dfsIndex m := by
    intro f hf
    rcases mem_cons.mp hf with rfl | hf
    · exact le_refl _
    · exact ((pairwise_cons.mp hpw.2).1 f hf).le
  have hedge : ∀ y r, s.StackEdge ((c, g.requested c) :: (m, done) :: path) y r →
      s.StackEdge ((m, done) :: path) y r := fun y r he => he.of_path fun f hf => ⟨f, hsub f hf, rfl⟩
  have hoff : ∀ w, w ∉ ((m, done) :: path).map fst → w ≠ c →
      w ∉ ((c, g.requested c) :: (m, done) :: path).map fst := by
    intro w hw hwc
    rw [map_cons, mem_cons, not_or]
    exact ⟨hwc, hw⟩
  constructor
  case path_stack => exact fun f hf => h.path_stack f (hsub f hf)
  case path_index => exact hpw.2
  case path_done => exact fun f hf r hr => hedge _ _ (h.path_done f (hsub f hf) r hr)
  case stack_index => exact h.stack_index
  case index_lt => exact h.index_lt
  case ancestor_le => exact h.ancestor_le
  case low => exact h.low
  case up =>
    intro w hw
    obtain ⟨f, hf, hfw, hwf⟩ := h.up w hw
    rcases mem_cons.mp hf with rfl | hf
    · -- `c` leads down to its low link, which leads up to an earlier activation.
      obtain ⟨u, hu, hui, hcu⟩ := h.low c hcs
      obtain ⟨f', hf', hfu, huf⟩ := h.up u hu
      have hlt : s.dfsIndex f'.1 < s.dfsIndex c := lt_of_le_of_lt (hfu.trans hui.le) hlow
      rcases mem_cons.mp hf' with rfl | hf'
      · exact absurd hlt (lt_irrefl _)
      · exact ⟨f', hf', hlt.le.trans hfw, (hwf.trans hcu).trans huf⟩
    · exact ⟨f, hf, hfw, hwf⟩
  case down => exact fun w hw f hf => h.down w hw f (hsub f hf)
  case parents_low => exact h.parents_low
  case off_ancestor =>
    intro w hw hwp
    by_cases hwc : w = c
    · rw [hwc]
      exact hlow
    · exact h.off_ancestor w hw (hoff w hwp hwc)
  case off_done =>
    intro w hw hwp r hr
    by_cases hwc : w = c
    · subst hwc
      exact hedge _ _ (h.path_done _ mem_cons_self r hr)
    · exact hedge _ _ (h.off_done w hw (hoff w hwp hwc) r hr)
  case off_pending =>
    intro w hw hwp hpos
    by_cases hwc : w = c
    · subst hwc
      exact hpending hpos
    · exact h.off_pending w hw (hoff w hwp hwc) hpos
  case off_nearest =>
    intro w hw hwp f hf hlt
    have hnearest : s.ancestor c ≤ s.ancestor w → s.dfsIndex c ≤ s.dfsIndex w →
        ∃ f' ∈ (m, done) :: path, s.dfsIndex f.1 ≤ s.dfsIndex f'.1 ∧
          s.dfsIndex f'.1 < s.dfsIndex w ∧ s.ancestor f'.1 ≤ s.ancestor w := fun hcw hiw =>
      ⟨(m, done), mem_cons_self, hle f hf, lt_of_lt_of_le hmc hiw, hm.trans hcw⟩
    by_cases hwc : w = c
    · exact hnearest (hwc ▸ le_refl _) (hwc ▸ le_refl _)
    · obtain ⟨f', hf', h₁, h₂, h₃⟩ := h.off_nearest w hw (hoff w hwp hwc) f (hsub f hf) hlt
      rcases mem_cons.mp hf' with rfl | hf'
      · exact hnearest h₃ h₂.le
      · exact ⟨f', hf', h₁, h₂, h₃⟩
  case off_parent =>
    intro w hw hwp ho
    by_cases hwc : w = c
    · subst hwc
      exact ⟨m, hparent ho, hms, fun f hf _ => hle f hf⟩
    · obtain ⟨p, hp, hps, hpf⟩ := h.off_parent w hw (hoff w hwp hwc) ho
      exact ⟨p, hp, hps, fun f hf => hpf f (hsub f hf)⟩

/-! ## The end of a cycle -/

/-- The members of the cycle whose root is the innermost activation. -/
def ModuleState.cycleMember (s : ModuleState n V) (root m : Fin n) : Prop :=
  s.status m = .evaluating ∧ s.dfsIndex root ≤ s.dfsIndex m

/-- An activation that links no lower than itself closes its cycle. -/
lemma OnPath.cycleDone {m : Fin n} {done : List (Fin n)} (hc : Consistent g events s)
    (hcount : Counted s []) (h : OnPath g s ((m, done) :: path) index)
    (hdone : ∀ r ∈ g.requested m, r ∈ done) (hlow : s.ancestor m = s.dfsIndex m)
    (hpending : 0 < s.pending m → s.order m ≠ asyncUnset) :
    CycleDone g s m (s.cycleMember m) := by
  have hms := h.path_stack _ mem_cons_self
  have hpw := pairwise_cons.mp h.path_index
  have hle : ∀ f ∈ (m, done) :: path, s.dfsIndex f.1 ≤ s.dfsIndex m := by
    intro f hf
    rcases mem_cons.mp hf with rfl | hf
    · exact le_refl _
    · exact (hpw.1 f hf).le
  -- A member other than the root has returned.
  have hreturned : ∀ w, s.cycleMember m w → w ≠ m → w ∉ ((m, done) :: path).map fst ∧
      s.dfsIndex m < s.dfsIndex w := by
    intro w hw hwm
    have hstack : w ≠ m → s.dfsIndex w ≠ s.dfsIndex m := by
      intro hne heq
      have hwmem := (hc.mem_stack w).mpr hw.1
      have hmmem := (hc.mem_stack m).mpr hms
      have hdist : s.stack.Pairwise fun a b => s.dfsIndex a ≠ s.dfsIndex b :=
        h.stack_index.imp fun hab => hab.ne'
      have : Std.Symm fun a b => s.dfsIndex a ≠ s.dfsIndex b := ⟨fun _ _ hab => hab.symm⟩
      exact hdist.forall hwmem hmmem hne heq
    refine ⟨?_, lt_of_le_of_ne hw.2 (hstack hwm).symm⟩
    rw [map_cons, mem_cons, not_or]
    refine ⟨hwm, fun hmem => ?_⟩
    obtain ⟨f, hf, rfl⟩ := mem_map.mp hmem
    exact absurd hw.2 (not_le.mpr (hpw.1 f hf))
  have hlink : ∀ w, s.cycleMember m w → s.dfsIndex m ≤ s.ancestor w := by
    intro w hw
    by_cases hwm : w = m
    · rw [hwm, hlow]
    · obtain ⟨hwp, hlt⟩ := hreturned w hw hwm
      obtain ⟨f', hf', h₁, -, h₃⟩ := h.off_nearest w hw.1 hwp (m, done) mem_cons_self hlt
      have hfm : f'.1 = m := by
        rcases mem_cons.mp hf' with rfl | hf'
        · rfl
        · exact absurd h₁ (not_le.mpr (hpw.1 f' hf'))
      rw [hfm, hlow] at h₃
      exact h₃
  have hedge : ∀ w, s.cycleMember m w → ∀ r ∈ g.requested w,
      s.StackEdge ((m, done) :: path) w r := by
    intro w hw r hr
    by_cases hwm : w = m
    · subst hwm
      exact h.path_done _ mem_cons_self r (hdone r hr)
    · exact h.off_done w hw.1 (hreturned w hw hwm).1 r hr
  have hwaiting : ∀ w, s.cycleMember m w → ∀ x, s.Unfinished x → w ∈ s.parents x →
      s.order w ≠ asyncUnset := by
    intro w hw x hx hwx
    have hpos : 0 < s.pending w := by
      rw [hcount w (Or.inr hw.1)]
      exact waits_pos hx not_mem_nil hwx
    by_cases hwm : w = m
    · subst hwm
      exact hpending hpos
    · exact h.off_pending w hw.1 (hreturned w hw hwm).1 hpos
  constructor
  case root_mem => exact ⟨hms, le_refl _⟩
  case stack => exact fun w hw => hw.1
  case same =>
    intro w hw
    refine ⟨?_, h.down w hw.1 (m, done) mem_cons_self hw.2⟩
    obtain ⟨f, hf, -, hwf⟩ := h.up w hw.1
    exact hwf.trans (h.down m hms f hf (hle f hf))
  case requests =>
    intro w hw r hr
    rcases hedge w hw r hr with ⟨hrs, hwr, -⟩ | hrest
    · exact .inl ⟨hrs, (hlink w hw).trans hwr⟩
    · exact .inr hrest
  case waiting => exact hwaiting
  case async =>
    intro w hw hwm ho
    obtain ⟨hwp, hlt⟩ := hreturned w hw hwm
    obtain ⟨p, hp, hps, hpf⟩ := h.off_parent w hw.1 hwp ho
    exact ⟨p, hp, hps, hpf (m, done) mem_cons_self hlt⟩
  case closed =>
    intro x hx hnot p hp hpU
    have hlt : s.dfsIndex x < s.dfsIndex m := by
      by_contra hge
      exact hnot ⟨hx, not_lt.mp hge⟩
    exact absurd ((hlink p hpU).trans (h.parents_low x p hx hp)) (not_le.mpr hlt)

/-- What stays on the stack when a cycle is closed is the path below its root. -/
lemma OnPath.endsCycle {m : Fin n} {done : List (Fin n)}
    (h : OnPath g s ((m, done) :: path) index) (b : EndsCycle s s' m (s.cycleMember m))
    (d : CycleDone g s m (s.cycleMember m)) : OnPath g s' path index := by
  have hms := h.path_stack _ mem_cons_self
  have hpw := pairwise_cons.mp h.path_index
  have hsub : ∀ f ∈ path, f ∈ (m, done) :: path := fun f hf => mem_cons_of_mem _ hf
  have hstay : ∀ w, s'.status w = .evaluating ↔
      s.status w = .evaluating ∧ s.dfsIndex w < s.dfsIndex m := by
    intro w
    by_cases hw : s.cycleMember m w
    · have hle := hw.2
      rcases b.off hw with hs | hs <;> simp [hs, hle]
    · rw [b.status_ne w hw]
      constructor
      · exact fun hs => ⟨hs, lt_of_not_ge fun hge => hw ⟨hs, hge⟩⟩
      · exact fun hs => hs.1
  have hnot : ∀ w, s'.status w = .evaluating → ¬s.cycleMember m w := by
    intro w hw hmem
    exact absurd ((hstay w).mp hw).2 (not_lt.mpr hmem.2)
  have hfin : ∀ y, s.Finished y → s'.Finished y := by
    intro y hy
    have := d.not_mem_of_off (.inr hy.1)
    exact ⟨(b.status_ne y this).trans hy.1, (b.errored y).trans hy.2⟩
  have hasync : ∀ y, s.status y = .evaluatingAsync → s'.status y = .evaluatingAsync := by
    intro y hy
    rw [b.status_ne y (d.not_mem_of_off (Or.inl hy)), hy]
  -- A request of what stays is not in the closed cycle.
  have hedge : ∀ y r, s.dfsIndex y < s.dfsIndex m → s.StackEdge ((m, done) :: path) y r →
      s'.StackEdge path y r := by
    intro y r hy he
    have hr : s.status r = .evaluating → s'.status r = .evaluating := by
      intro hrs
      rcases he with ⟨-, -, hpath⟩ | ⟨hoff, -⟩
      · exact (hstay r).mpr ⟨hrs, hpath (m, done) mem_cons_self hy⟩
      · rcases hoff with ho | ho <;> simp [ho] at hrs
    refine he.mono (fun hrs => ⟨hr hrs, b.index r, ?_⟩) (b.index y) (b.ancestor y).le ?_ hfin
      hasync ?_
    · exact fun f hf _ => .inr ⟨hsub f hf, b.index _⟩
    · intro hoff
      have hrm := d.not_mem_of_off hoff
      exact ⟨(b.off_iff hrm).mpr hoff, b.moduleCycleRoot_ne hrm⟩
    · exact fun y p hp => by rw [b.parents]; exact hp
  have hoff : ∀ w, s'.status w = .evaluating → w ∉ path.map fst →
      w ∉ ((m, done) :: path).map fst := by
    intro w hw hwp
    rw [map_cons, mem_cons, not_or]
    refine ⟨?_, hwp⟩
    rintro rfl
    exact hnot w hw ⟨hms, le_refl _⟩
  constructor
  case path_stack =>
    exact fun f hf => (hstay f.1).mpr ⟨h.path_stack f (hsub f hf), hpw.1 f hf⟩
  case path_index => simpa only [b.index] using hpw.2
  case path_done =>
    exact fun f hf r hr => hedge _ _ (hpw.1 f hf) (h.path_done f (hsub f hf) r hr)
  case stack_index =>
    simp only [b.index]
    exact h.stack_index.sublist b.stack_suffix
  case index_lt => exact fun w hw => by rw [b.index]; exact h.index_lt w ((hstay w).mp hw).1
  case ancestor_le =>
    exact fun w hw => by rw [b.index, b.ancestor]; exact h.ancestor_le w ((hstay w).mp hw).1
  case low =>
    intro w hw
    obtain ⟨hws, hlt⟩ := (hstay w).mp hw
    obtain ⟨u, hu, hui, hwu⟩ := h.low w hws
    refine ⟨u, (hstay u).mpr ⟨hu, ?_⟩, by rw [b.index, b.ancestor, hui], hwu⟩
    rw [hui]
    exact lt_of_le_of_lt (h.ancestor_le w hws) hlt
  case up =>
    intro w hw
    obtain ⟨hws, hlt⟩ := (hstay w).mp hw
    obtain ⟨f, hf, hle, hwf⟩ := h.up w hws
    rcases mem_cons.mp hf with rfl | hf
    · exact absurd hle (not_le.mpr hlt)
    · exact ⟨f, hf, by rwa [b.index, b.index], hwf⟩
  case down =>
    intro w hw f hf hle
    rw [b.index, b.index] at hle
    exact h.down w ((hstay w).mp hw).1 f (hsub f hf) hle
  case parents_low =>
    intro x p hx hp
    rw [b.parents] at hp
    rw [b.index, b.ancestor]
    exact h.parents_low x p ((hstay x).mp hx).1 hp
  case off_ancestor =>
    intro w hw hwp
    rw [b.index, b.ancestor]
    exact h.off_ancestor w ((hstay w).mp hw).1 (hoff w hw hwp)
  case off_done =>
    intro w hw hwp r hr
    obtain ⟨hws, hlt⟩ := (hstay w).mp hw
    exact hedge w r hlt (h.off_done w hws (hoff w hw hwp) r hr)
  case off_pending =>
    intro w hw hwp hpos
    rw [b.pending] at hpos
    rw [b.order]
    exact h.off_pending w ((hstay w).mp hw).1 (hoff w hw hwp) hpos
  case off_nearest =>
    intro w hw hwp f hf hlt
    obtain ⟨hws, hwm⟩ := (hstay w).mp hw
    rw [b.index, b.index] at hlt
    obtain ⟨f', hf', h₁, h₂, h₃⟩ := h.off_nearest w hws (hoff w hw hwp) f (hsub f hf) hlt
    rcases mem_cons.mp hf' with rfl | hf'
    · exact absurd h₂ (not_lt.mpr hwm.le)
    · refine ⟨f', hf', ?_⟩
      rw [b.index, b.index, b.index, b.ancestor, b.ancestor]
      exact ⟨h₁, h₂, h₃⟩
  case off_parent =>
    intro w hw hwp ho
    obtain ⟨hws, hwm⟩ := (hstay w).mp hw
    rw [b.order] at ho
    obtain ⟨p, hp, hps, hpf⟩ := h.off_parent w hws (hoff w hw hwp) ho
    have hpU := d.closed w hws (hnot w hw) p hp
    refine ⟨p, by rw [b.parents]; exact hp, by rw [b.status_ne p hpU, hps], fun f hf hlt => ?_⟩
    rw [b.index, b.index] at hlt ⊢
    exact hpf f (hsub f hf) hlt

end Oseo.ModuleEvaluation
