import Oseo.Library.Runs
import Mathlib.Data.List.Nodup
import Mathlib.Algebra.GroupWithZero.Nat
import Mathlib.Logic.Relation

/-!
# Depth-first search with explicit frames

A search of a graph that keeps a stack of frames in the place of recursion. A frame is an open
node with the successors it has not looked at yet.

* `SearchStep` has one event for each thing that an iteration can do;
* `Search.Valid` is kept by every step (`SearchStep.valid`);
* `Explores` is the recursive search, and a search with frames has its results
  (`SearchStep.resumes`);
* a finished node is ordered after its successors, unless these lead back to it, and after all
  nodes of its strong component that were visited later.
-/

namespace Oseo.Library

open List

variable {ι : Type*} {next : ι → List ι}

/-- A path from one node to another. -/
def Leads (next : ι → List ι) : ι → ι → Prop := Relation.ReflTransGen fun x y => y ∈ next x

lemma Leads.refl (x : ι) : Leads next x x := Relation.ReflTransGen.refl

lemma Leads.edge {x y : ι} (h : y ∈ next x) : Leads next x y := Relation.ReflTransGen.single h

lemma Leads.trans {x y z : ι} (h : Leads next x y) (h' : Leads next y z) : Leads next x z :=
  Relation.ReflTransGen.trans h h'

/-- The state of a search: the nodes in the order of the first visit, the nodes in the order
they were finished, and the frames, innermost first. -/
structure Search (ι : Type*) where
  visited : List ι
  order : List ι
  frames : List (ι × List ι)

/-- What an iteration does. -/
inductive SearchEvent (ι : Type*)
  | enter (v : ι)
  | see (u v : ι)
  | leave (u : ι)

/-- The nodes whose frames are open, innermost first. -/
def Search.openNodes (s : Search ι) : List ι := s.frames.map Prod.fst

variable [DecidableEq ι]

/-- The place of a node in the order of the visits. -/
def Search.pos (s : Search ι) (v : ι) : ℕ := s.visited.idxOf v

/-- One iteration. A search starts at a root when no frame is open. -/
inductive SearchStep (next : ι → List ι) : Search ι → SearchEvent ι → Search ι → Prop
  | start {s : Search ι} {v : ι} (hframes : s.frames = []) (hnew : v ∉ s.visited) :
    SearchStep next s (.enter v) ⟨s.visited ++ [v], s.order, [(v, next v)]⟩
  | descend {s : Search ι} {u v : ι} {rest : List ι} {frames : List (ι × List ι)}
      (hframes : s.frames = (u, v :: rest) :: frames) (hnew : v ∉ s.visited) :
    SearchStep next s (.enter v)
      ⟨s.visited ++ [v], s.order, (v, next v) :: (u, rest) :: frames⟩
  | see {s : Search ι} {u v : ι} {rest : List ι} {frames : List (ι × List ι)}
      (hframes : s.frames = (u, v :: rest) :: frames) (hold : v ∈ s.visited) :
    SearchStep next s (.see u v) ⟨s.visited, s.order, (u, rest) :: frames⟩
  | leave {s : Search ι} {u : ι} {frames : List (ι × List ι)}
      (hframes : s.frames = (u, []) :: frames) :
    SearchStep next s (.leave u) ⟨s.visited, s.order ++ [u], frames⟩

/-- What holds during a search. -/
structure Search.Valid (next : ι → List ι) (s : Search ι) : Prop where
  nodup : s.visited.Nodup
  visited : ∀ x, x ∈ s.visited ↔ x ∈ s.order ∨ x ∈ s.openNodes
  order_nodup : s.order.Nodup
  closed : ∀ x ∈ s.order, x ∉ s.openNodes
  opened : s.openNodes.Pairwise fun x y => s.pos y < s.pos x
  seen : ∀ u rest, (u, rest) ∈ s.frames →
    ∃ looked, next u = looked ++ rest ∧ ∀ w ∈ looked, w ∈ s.visited
  explored : ∀ x ∈ s.order, ∀ w ∈ next x, w ∈ s.visited
  reaches : ∀ u ∈ s.openNodes, ∀ x ∈ s.visited, s.pos u ≤ s.pos x → Leads next u x
  earlier : ∀ x ∈ s.order, ∀ w ∈ next x,
    (w ∈ s.order ∧ s.order.idxOf w < s.order.idxOf x) ∨ Leads next w x
  first : ∀ r ∈ s.order,
    (∀ y ∈ s.visited, Leads next r y → Leads next y r → s.pos r ≤ s.pos y) →
      ∀ y, Leads next r y → Leads next y r → y ∈ s.order ∧ s.order.idxOf y ≤ s.order.idxOf r

/-- The state before a search. -/
def Search.empty : Search ι := ⟨[], [], []⟩

lemma Search.empty_valid : (Search.empty : Search ι).Valid next := by
  constructor <;> simp [Search.empty, Search.openNodes]

section
variable {s s' : Search ι} {u v x y : ι}

lemma Search.pos_lt (hx : x ∈ s.visited) :
    s.pos x < s.visited.length := idxOf_lt_length_of_mem hx

lemma Search.pos_inj (hx : x ∈ s.visited) (heq : s.pos x = s.pos y) : x = y :=
  (idxOf_inj hx).mp heq

/-- A node that is added keeps the places of the others. -/
lemma idxOf_concat_of_mem {l : List ι} (hx : x ∈ l) : (l ++ [v]).idxOf x = l.idxOf x :=
  idxOf_append_of_mem hx

lemma idxOf_concat_self {l : List ι} (hv : v ∉ l) : (l ++ [v]).idxOf v = l.length := by
  rw [idxOf_append_of_notMem hv]
  simp

/-- A node with an earlier place comes before the other one. -/
lemma sublist_of_idxOf_lt {l : List ι} (hx : x ∈ l) (hlt : l.idxOf y < l.idxOf x) :
    [y, x].Sublist l := by
  induction l with
  | nil => exact absurd hx not_mem_nil
  | cons z l ih =>
    have hzx : z ≠ x := by
      rintro rfl
      rw [idxOf_cons_self] at hlt
      exact absurd hlt (Nat.not_lt_zero _)
    have hx' : x ∈ l := (mem_cons.mp hx).resolve_left (Ne.symm hzx)
    by_cases hzy : z = y
    · rw [hzy]
      exact (singleton_sublist.mpr hx').cons_cons y
    · rw [idxOf_cons_ne _ hzy, idxOf_cons_ne _ hzx] at hlt
      exact (ih hx' (by omega)).cons z

lemma Search.earlier_sublist (hx : x ∈ s.visited) (hy : y ∈ s.visited) (hle : s.pos x ≤ s.pos y)
    (hne : y ≠ x) : [x, y].Sublist s.visited := by
  apply sublist_of_idxOf_lt hy
  refine Nat.lt_of_le_of_ne hle fun heq => hne (Search.pos_inj hx heq).symm

/-! ## Entering a node -/

/-- A new node is visited, and its frame opened inside frames that lead to it. -/
lemma Search.Valid.enter (h : s.Valid next) (hnew : v ∉ s.visited)
    {frames : List (ι × List ι)} (hopen : frames.map Prod.fst = s.openNodes)
    (hseen : ∀ u rest, (u, rest) ∈ frames →
      ∃ looked, next u = looked ++ rest ∧ ∀ w ∈ looked, w ∈ s.visited ++ [v])
    (hleads : ∀ u ∈ s.openNodes, Leads next u v) :
    (⟨s.visited ++ [v], s.order, (v, next v) :: frames⟩ : Search ι).Valid next := by
  have hold : ∀ x, x ∈ s.order ∨ x ∈ s.openNodes → x ∈ s.visited ∧ x ≠ v := by
    intro x hx
    have hmem := (h.visited x).mpr hx
    exact ⟨hmem, fun heq => hnew (heq ▸ hmem)⟩
  have hopen' : (⟨s.visited ++ [v], s.order, (v, next v) :: frames⟩ : Search ι).openNodes =
      v :: s.openNodes := by
    rw [← hopen]
    rfl
  have hpos : ∀ x ∈ s.visited, (s.visited ++ [v]).idxOf x = s.pos x := fun x hx =>
    idxOf_concat_of_mem hx
  have hposv : (s.visited ++ [v]).idxOf v = s.visited.length := idxOf_concat_self hnew
  constructor
  case nodup =>
    show (s.visited ++ [v]).Nodup
    rw [nodup_append]
    exact ⟨h.nodup, nodup_singleton v, fun a ha b hb heq => by
      rw [mem_singleton.mp hb] at heq
      exact hnew (heq ▸ ha)⟩
  case visited =>
    intro x
    rw [hopen']
    simp only [mem_append, mem_cons, h.visited x]
    tauto
  case order_nodup => exact h.order_nodup
  case closed =>
    intro x hx hmem
    rw [hopen', mem_cons] at hmem
    rcases hmem with rfl | hmem
    · exact (hold x (.inl hx)).2 rfl
    · exact h.closed x hx hmem
  case opened =>
    rw [hopen', pairwise_cons]
    constructor
    · intro x hx
      have hmem := (hold x (.inr hx)).1
      show (s.visited ++ [v]).idxOf x < (s.visited ++ [v]).idxOf v
      rw [hpos x hmem, hposv]
      exact Search.pos_lt hmem
    · refine h.opened.imp_of_mem fun {x y} hx hy hlt => ?_
      show (s.visited ++ [v]).idxOf y < (s.visited ++ [v]).idxOf x
      rwa [hpos x (hold x (Or.inr hx)).1, hpos y (hold y (Or.inr hy)).1]
  case seen =>
    intro u rest hmem
    rcases mem_cons.mp hmem with heq | hmem
    · cases heq
      exact ⟨[], rfl, fun w hw => absurd hw not_mem_nil⟩
    · exact hseen u rest hmem
  case explored =>
    intro x hx w hw
    exact mem_append_left _ (h.explored x hx w hw)
  case reaches =>
    intro u hu x hx hle
    rw [hopen', mem_cons] at hu
    rcases mem_append.mp hx with hmem | hmem
    · have hle' : (s.visited ++ [v]).idxOf u ≤ s.pos x := hpos x hmem ▸ hle
      rcases hu with rfl | hu
      · -- A node visited before the new one is not at or after it.
        have := Search.pos_lt hmem
        rw [hposv] at hle'
        omega
      · rw [hpos u (hold u (Or.inr hu)).1] at hle'
        exact h.reaches u hu x hmem hle'
    · rw [mem_singleton.mp hmem]
      rcases hu with rfl | hu
      · exact .refl u
      · exact hleads u hu
  case earlier => exact h.earlier
  case first =>
    intro r hr hfirst
    refine h.first r hr fun y hy hry hyr => ?_
    have hle := hfirst y (mem_append_left _ hy) hry hyr
    have hle' : (s.visited ++ [v]).idxOf r ≤ (s.visited ++ [v]).idxOf y := hle
    rwa [hpos y hy, hpos r (hold r (Or.inl hr)).1] at hle'

/-! ## Looking at a visited node -/

lemma Search.Valid.see (h : s.Valid next) {rest : List ι} {frames : List (ι × List ι)}
    (hframes : s.frames = (u, v :: rest) :: frames) (hold : v ∈ s.visited) :
    (⟨s.visited, s.order, (u, rest) :: frames⟩ : Search ι).Valid next := by
  have hopen : (⟨s.visited, s.order, (u, rest) :: frames⟩ : Search ι).openNodes =
      s.openNodes := by
    unfold Search.openNodes
    rw [hframes]
    rfl
  refine ⟨h.nodup, ?_, h.order_nodup, ?_, ?_, ?_, h.explored, ?_, h.earlier, h.first⟩
  · rw [hopen]
    exact h.visited
  · rw [hopen]
    exact h.closed
  · rw [hopen]
    exact h.opened
  · intro x left hmem
    rcases mem_cons.mp hmem with heq | hmem
    · cases heq
      obtain ⟨looked, hnext, hlooked⟩ := h.seen u (v :: rest) (by rw [hframes]; simp)
      refine ⟨looked ++ [v], by simpa using hnext, fun w hw => ?_⟩
      rcases mem_append.mp hw with hw | hw
      · exact hlooked w hw
      · rw [mem_singleton.mp hw]
        exact hold
    · exact h.seen x left (by rw [hframes]; exact mem_cons_of_mem _ hmem)
  · rw [hopen]
    exact h.reaches

/-! ## Finishing a node -/

/-- Every successor of the innermost open node has been visited when none is left. -/
lemma Search.Valid.explored_top (h : s.Valid next) {frames : List (ι × List ι)}
    (hframes : s.frames = (u, []) :: frames) : ∀ w ∈ next u, w ∈ s.visited := by
  obtain ⟨looked, hnext, hlooked⟩ := h.seen u [] (by rw [hframes]; simp)
  rw [hnext, append_nil]
  exact hlooked

/-- A node visited after the innermost open node is finished. -/
lemma Search.Valid.finished_after (h : s.Valid next) {rest : List ι} {frames : List (ι × List ι)}
    (hframes : s.frames = (u, rest) :: frames) (hx : x ∈ s.visited) (hlt : s.pos u < s.pos x) :
    x ∈ s.order := by
  refine ((h.visited x).mp hx).resolve_right fun hopen => ?_
  have hopened := h.opened
  unfold Search.openNodes at hopen hopened
  rw [hframes, map_cons] at hopen hopened
  rcases mem_cons.mp hopen with heq | hopen
  · rw [heq] at hlt
    exact Nat.lt_irrefl _ hlt
  · have : s.pos x < s.pos u := (pairwise_cons.mp hopened).1 x hopen
    omega

/-- Leaving the first visited node of a strong component: the rest of it is finished. -/
lemma Search.Valid.component_finished (h : s.Valid next) {frames : List (ι × List ι)}
    (hframes : s.frames = (u, []) :: frames) (hu : u ∈ s.visited)
    (hfirst : ∀ y ∈ s.visited, Leads next u y → Leads next y u → s.pos u ≤ s.pos y)
    (hto : Leads next u y) (hfrom : Leads next y u) : y = u ∨ y ∈ s.order := by
  induction hto with
  | refl => exact .inl rfl
  | @tail z y hz hedge ih =>
    have hzu : Leads next z u := (Leads.edge hedge).trans hfrom
    have hy : y ∈ s.visited := by
      rcases ih hzu with rfl | hz'
      · exact h.explored_top hframes y hedge
      · exact h.explored z hz' y hedge
    have hle := hfirst y hy (.trans hz (.edge hedge)) hfrom
    by_cases heq : y = u
    · exact .inl heq
    · refine .inr (h.finished_after hframes hy ?_)
      have hne : s.pos u ≠ s.pos y := fun hpos => heq (Search.pos_inj hu hpos).symm
      omega

lemma Search.Valid.leave (h : s.Valid next) {frames : List (ι × List ι)}
    (hframes : s.frames = (u, []) :: frames) :
    (⟨s.visited, s.order ++ [u], frames⟩ : Search ι).Valid next := by
  have hopen : s.openNodes = u :: frames.map Prod.fst := congrArg (map Prod.fst) hframes
  have hu : u ∈ s.openNodes := by
    rw [hopen]
    exact mem_cons_self
  have huv : u ∈ s.visited := (h.visited u).mpr (.inr hu)
  have hnot : u ∉ s.order := fun hmem => h.closed u hmem hu
  have hopened := h.opened
  rw [hopen, pairwise_cons] at hopened
  have hne : ∀ x ∈ frames.map Prod.fst, x ≠ u := by
    rintro x hx rfl
    have := hopened.1 x hx
    omega
  have hidx : ∀ x ∈ s.order, (s.order ++ [u]).idxOf x = s.order.idxOf x := fun x hx =>
    idxOf_concat_of_mem hx
  have hidxu : (s.order ++ [u]).idxOf u = s.order.length := idxOf_concat_self hnot
  constructor
  case nodup => exact h.nodup
  case visited =>
    intro x
    show x ∈ s.visited ↔ x ∈ s.order ++ [u] ∨ x ∈ frames.map Prod.fst
    rw [h.visited, hopen, mem_append, mem_cons, mem_singleton]
    tauto
  case order_nodup =>
    show (s.order ++ [u]).Nodup
    rw [nodup_append]
    exact ⟨h.order_nodup, nodup_singleton u, fun a ha b hb heq => by
      rw [mem_singleton.mp hb] at heq
      exact hnot (heq ▸ ha)⟩
  case closed =>
    intro x hx hmem
    rcases mem_append.mp hx with hx | hx
    · refine h.closed x hx ?_
      rw [hopen]
      exact mem_cons_of_mem _ hmem
    · exact hne x hmem (mem_singleton.mp hx)
  case opened => exact hopened.2
  case seen =>
    intro x rest hmem
    exact h.seen x rest (by rw [hframes]; exact mem_cons_of_mem _ hmem)
  case explored =>
    intro x hx w hw
    rcases mem_append.mp hx with hx | hx
    · exact h.explored x hx w hw
    · rw [mem_singleton.mp hx] at hw
      exact h.explored_top hframes w hw
  case reaches =>
    intro x hx
    refine h.reaches x ?_
    rw [hopen]
    exact mem_cons_of_mem _ hx
  case earlier =>
    intro x hx w hw
    show (w ∈ s.order ++ [u] ∧ (s.order ++ [u]).idxOf w < (s.order ++ [u]).idxOf x) ∨
      Leads next w x
    rcases mem_append.mp hx with hx | hx
    · refine (h.earlier x hx w hw).imp_left fun ⟨hmem, hlt⟩ => ?_
      rw [hidx w hmem, hidx x hx]
      exact ⟨mem_append_left _ hmem, hlt⟩
    · -- A successor that is not finished is open, outside `u` or `u` itself.
      rw [mem_singleton.mp hx] at hw ⊢
      rcases (h.visited w).mp (h.explored_top hframes w hw) with hmem | hmem
      · left
        rw [hidx w hmem, hidxu]
        exact ⟨mem_append_left _ hmem, idxOf_lt_length_of_mem hmem⟩
      · right
        refine h.reaches w hmem u huv ?_
        rw [hopen] at hmem
        rcases mem_cons.mp hmem with rfl | hmem
        · exact Nat.le_refl _
        · exact Nat.le_of_lt (hopened.1 w hmem)
  case first =>
    intro r hr hfirst y hry hyr
    show y ∈ s.order ++ [u] ∧ (s.order ++ [u]).idxOf y ≤ (s.order ++ [u]).idxOf r
    rcases mem_append.mp hr with hr | hr
    · obtain ⟨hmem, hle⟩ := h.first r hr hfirst y hry hyr
      rw [hidx y hmem, hidx r hr]
      exact ⟨mem_append_left _ hmem, hle⟩
    · rw [mem_singleton.mp hr] at hfirst hry hyr ⊢
      rcases h.component_finished hframes huv hfirst hry hyr with rfl | hmem
      · exact ⟨mem_append_right _ (mem_singleton_self _), Nat.le_refl _⟩
      · rw [hidx y hmem, hidxu]
        exact ⟨mem_append_left _ hmem, Nat.le_of_lt (idxOf_lt_length_of_mem hmem)⟩

/-! ## Steps -/

/-- Every iteration keeps what holds during a search. -/
theorem SearchStep.valid {event : SearchEvent ι} (hstep : SearchStep next s event s')
    (h : s.Valid next) : s'.Valid next := by
  cases hstep with
  | @start v hframes hnew =>
    have hopen : s.openNodes = [] := congrArg (map Prod.fst) hframes
    refine h.enter hnew hopen.symm (fun u rest hmem => absurd hmem not_mem_nil) ?_
    rw [hopen]
    exact fun u hu => absurd hu not_mem_nil
  | @descend u v rest frames hframes hnew =>
    have hopen : s.openNodes = u :: frames.map Prod.fst := congrArg (map Prod.fst) hframes
    have huo : u ∈ s.openNodes := by
      rw [hopen]
      exact mem_cons_self
    obtain ⟨looked, hnext, hlooked⟩ := h.seen u (v :: rest) (by rw [hframes]; simp)
    have hedge : v ∈ next u := by
      rw [hnext]
      simp
    refine h.enter hnew hopen.symm (fun x left hmem => ?_) fun x hx => ?_
    · rcases mem_cons.mp hmem with heq | hmem
      · cases heq
        refine ⟨looked ++ [v], by simpa using hnext, fun w hw => ?_⟩
        rcases mem_append.mp hw with hw | hw
        · exact mem_append_left _ (hlooked w hw)
        · exact mem_append_right _ hw
      · obtain ⟨looked', hnext', hlooked'⟩ :=
          h.seen x left (by rw [hframes]; exact mem_cons_of_mem _ hmem)
        exact ⟨looked', hnext', fun w hw => mem_append_left _ (hlooked' w hw)⟩
    · -- Every open node leads to the innermost one, and that to the new node.
      have huv : u ∈ s.visited := (h.visited u).mpr (.inr huo)
      refine (h.reaches x hx u huv ?_).trans (.edge hedge)
      have hopened := h.opened
      rw [hopen, pairwise_cons] at hopened
      rw [hopen] at hx
      rcases mem_cons.mp hx with rfl | hx
      · exact Nat.le_refl _
      · exact Nat.le_of_lt (hopened.1 x hx)
  | @see u v rest frames hframes hold => exact h.see hframes hold
  | @leave u frames hframes => exact h.leave hframes

/-! ## A search that has come to an end -/

/-- Without open frames, everything visited is finished, and so is what it leads to. -/
lemma Search.Valid.complete (h : s.Valid next) (hframes : s.frames = []) :
    (∀ x, x ∈ s.order ↔ x ∈ s.visited) ∧
      ∀ x ∈ s.visited, ∀ y, Leads next x y → y ∈ s.visited := by
  have hopen : s.openNodes = [] := congrArg (map Prod.fst) hframes
  have hall : ∀ x, x ∈ s.order ↔ x ∈ s.visited := by
    intro x
    rw [h.visited, hopen]
    simp
  refine ⟨hall, fun x hx y hleads => ?_⟩
  induction hleads with
  | refl => exact hx
  | tail _ hedge ih => exact h.explored _ ((hall _).mpr ih) _ hedge

/-- An iteration inside a frame visits nodes that visited ones lead to. -/
lemma SearchStep.visited_leads {event : SearchEvent ι} (hstep : SearchStep next s event s')
    (h : s.Valid next) (hframes : s.frames ≠ []) :
    ∀ x ∈ s'.visited, ∃ y ∈ s.visited, Leads next y x := by
  have hself : ∀ x ∈ s.visited, ∃ y ∈ s.visited, Leads next y x :=
    fun x hx => ⟨x, hx, .refl x⟩
  cases hstep with
  | @start v hnone hnew => exact absurd hnone hframes
  | @descend u v rest frames hframes hnew =>
    intro x hx
    rcases mem_append.mp hx with hx | hx
    · exact hself x hx
    · rw [mem_singleton.mp hx]
      obtain ⟨looked, hnext, -⟩ := h.seen u (v :: rest) (by rw [hframes]; simp)
      have hu : u ∈ s.openNodes := by
        unfold Search.openNodes
        rw [hframes]
        exact mem_cons_self
      exact ⟨u, (h.visited u).mpr (.inr hu), .edge (by rw [hnext]; simp)⟩
  | @see u v rest frames hframes hold => exact hself
  | @leave u frames hframes => exact hself

/-! ## A search comes to an end -/

/-- What is left to do: to look at the successors of the nodes not visited, and of the open
ones. -/
def Search.left (next : ι → List ι) (nodes : List ι) (s : Search ι) : ℕ :=
  ((nodes.filter (· ∉ s.visited)).map fun v => (next v).length + 1).sum +
    (s.frames.map fun frame => frame.2.length + 1).sum

lemma sum_filter_concat (f : ι → ℕ) (visited nodes : List ι) (hv : v ∈ nodes)
    (hnew : v ∉ visited) :
    ((nodes.filter (· ∉ visited ++ [v])).map f).sum + f v ≤
      ((nodes.filter (· ∉ visited)).map f).sum := by
  have hle : ∀ nodes : List ι, ((nodes.filter (· ∉ visited ++ [v])).map f).sum ≤
      ((nodes.filter (· ∉ visited)).map f).sum := by
    intro nodes
    induction nodes with
    | nil => exact Nat.le_refl _
    | cons x nodes ih =>
      by_cases hx : x ∈ visited
      · simpa [hx] using ih
      · by_cases hxv : x = v
        · simp [hxv, hnew]
          simp at ih
          omega
        · simpa [hx, hxv] using ih
  induction nodes with
  | nil => exact absurd hv not_mem_nil
  | cons x nodes ih =>
    by_cases hxv : x = v
    · have := hle nodes
      simp [hxv, hnew]
      simp at this
      omega
    · have hmem := (mem_cons.mp hv).resolve_left (Ne.symm hxv)
      by_cases hx : x ∈ visited
      · simpa [hx] using ih hmem
      · have := ih hmem
        simp [hx, hxv]
        simp at this
        omega

/-- An iteration inside a frame leaves less to do. -/
lemma SearchStep.left_lt {event : SearchEvent ι} (hstep : SearchStep next s event s')
    (h : s.Valid next) (hframes : s.frames ≠ []) {nodes : List ι}
    (hnodes : ∀ x ∈ s.visited, ∀ y ∈ next x, y ∈ nodes) :
    s'.left next nodes < s.left next nodes := by
  unfold Search.left
  cases hstep with
  | @start v hnone hnew => exact absurd hnone hframes
  | @descend u v rest frames hframes hnew =>
    obtain ⟨looked, hnext, -⟩ := h.seen u (v :: rest) (by rw [hframes]; simp)
    have hu : u ∈ s.openNodes := by
      unfold Search.openNodes
      rw [hframes]
      exact mem_cons_self
    have hv : v ∈ nodes := hnodes u ((h.visited u).mpr (.inr hu)) v (by rw [hnext]; simp)
    have := sum_filter_concat (fun v => (next v).length + 1) s.visited nodes hv hnew
    rw [hframes]
    simp only [map_cons, sum_cons, length_cons]
    omega
  | @see u v rest frames hframes hold =>
    rw [hframes]
    simp only [map_cons, sum_cons, length_cons]
    omega
  | @leave u frames hframes =>
    rw [hframes]
    simp only [map_cons, sum_cons]
    omega

end

/-! ## The recursive search -/

/-- The recursive search over a list of nodes: a node that has been visited is passed over, a
new one is visited, then its successors, and then it is finished. -/
inductive Explores (next : ι → List ι) : List ι → List ι → List ι → List ι → List ι → Prop
  | nil {visited order : List ι} : Explores next visited order [] visited order
  | old {visited order rest visited' order' : List ι} {v : ι} (hold : v ∈ visited)
      (hrest : Explores next visited order rest visited' order') :
    Explores next visited order (v :: rest) visited' order'
  | new {visited order rest visited₁ order₁ visited' order' : List ι} {v : ι}
      (hnew : v ∉ visited) (hnext : Explores next (visited ++ [v]) order (next v) visited₁ order₁)
      (hrest : Explores next visited₁ (order₁ ++ [v]) rest visited' order') :
    Explores next visited order (v :: rest) visited' order'

omit [DecidableEq ι] in
lemma Explores.append {visited order l visited₁ order₁ l' visited' order' : List ι}
    (h : Explores next visited order l visited₁ order₁)
    (h' : Explores next visited₁ order₁ l' visited' order') :
    Explores next visited order (l ++ l') visited' order' := by
  induction h with
  | nil => exact h'
  | old hold _ ih => exact .old hold (ih h')
  | new hnew hnext _ _ ih => exact .new hnew hnext (ih h')

/-- The recursive search takes the frames over: it looks at the rest of the innermost one,
finishes its node, and goes on with the next. -/
def Resumes (next : ι → List ι) :
    List ι → List ι → List (ι × List ι) → List ι → List ι → Prop
  | visited, order, [], visited', order' => visited = visited' ∧ order = order'
  | visited, order, (u, rest) :: frames, visited', order' =>
    ∃ visited₁ order₁, Explores next visited order rest visited₁ order₁ ∧
      Resumes next visited₁ (order₁ ++ [u]) frames visited' order'

omit [DecidableEq ι] in
/-- An iteration inside a frame does not change what the recursive search comes to. -/
lemma SearchStep.resumes {s s' : Search ι} {event : SearchEvent ι}
    (hstep : SearchStep next s event s') (hframes : s.frames ≠ []) {visited order : List ι}
    (h : Resumes next s'.visited s'.order s'.frames visited order) :
    Resumes next s.visited s.order s.frames visited order := by
  cases hstep with
  | @start v hnone hnew => exact absurd hnone hframes
  | @descend u v rest frames hframes hnew =>
    obtain ⟨visited₁, order₁, hnext, visited₂, order₂, hrest, hframes'⟩ := h
    rw [hframes]
    exact ⟨visited₂, order₂, .new hnew hnext hrest, hframes'⟩
  | @see u v rest frames hframes hold =>
    obtain ⟨visited₁, order₁, hrest, hframes'⟩ := h
    rw [hframes]
    exact ⟨visited₁, order₁, .old hold hrest, hframes'⟩
  | @leave u frames hframes =>
    rw [hframes]
    exact ⟨s.visited, s.order, .nil, h⟩

/-! ## Loops that search -/

section
variable {σ : Type*} {cond : σ → Bool} {body : σ → Option σ} {I : σ → Search ι → Prop}
  {nodes : List ι} (hnodes : ∀ x, ∀ y ∈ next x, y ∈ nodes)
  (hcond : ∀ a s, I a s → (cond a = true ↔ s.frames ≠ []))
  (hbody : ∀ a s, I a s → s.Valid next → s.frames ≠ [] → ∃ a' event s', body a = some a' ∧ SearchStep next s event s' ∧ I a' s')
  {a : σ} {s : Search ι}
include hnodes hcond hbody

/-- A loop whose rounds are iterations of a search, as long as a frame is open, comes to an end.
It visits what the nodes visited before lead to, and finishes the open frames. -/
lemma search_loop (ha : I a s) (hs : s.Valid next) :
    ∃ a' s' fuel₀, (∀ fuel, fuel₀ ≤ fuel → whileLoop cond body fuel a = some a') ∧ I a' s' ∧
      s'.Valid next ∧ s'.frames = [] ∧ (∀ x ∈ s.visited, x ∈ s'.visited) ∧
      (∀ x ∈ s'.visited, ∃ y ∈ s.visited, Leads next y x) ∧
      Resumes next s.visited s.order s.frames s'.visited s'.order := by
  generalize hleft : s.left next nodes = left
  induction left using Nat.strongRecOn generalizing a s with
  | ind left ih =>
    by_cases hframes : s.frames = []
    · have hstop : cond a = false := by
        rw [Bool.eq_false_iff]
        exact fun hc => (hcond a s ha).mp hc hframes
      refine ⟨a, s, 1, fun fuel hfuel => ?_, ha, hs, hframes, fun x hx => hx,
        fun x hx => ⟨x, hx, .refl x⟩, ?_⟩
      · obtain ⟨fuel, rfl⟩ : ∃ k, fuel = k + 1 := ⟨fuel - 1, by omega⟩
        exact whileLoop_stop hstop fuel
      · rw [hframes]
        exact ⟨rfl, rfl⟩
    · obtain ⟨a₁, event, s₁, hround, hstep, ha₁⟩ := hbody a s ha hs hframes
      have hlt := hstep.left_lt hs hframes fun x _ y hy => hnodes x y hy
      obtain ⟨a', s', fuel₀, hend, ha', hs', hframes', hmono, hleads, hresumes⟩ :=
        ih (s₁.left next nodes) (by omega) ha₁ (hstep.valid hs) rfl
      refine ⟨a', s', fuel₀ + 1, fun fuel hfuel => ?_, ha', hs', hframes', fun x hx => ?_,
        fun x hx => ?_, hstep.resumes hframes hresumes⟩
      · obtain ⟨fuel, rfl⟩ : ∃ k, fuel = k + 1 := ⟨fuel - 1, by omega⟩
        rw [whileLoop_go ((hcond a s ha).mpr hframes) hround]
        exact hend fuel (by omega)
      · refine hmono x ?_
        cases hstep with
        | start hnone hnew => exact mem_append_left _ hx
        | descend hframes hnew => exact mem_append_left _ hx
        | see hframes hold => exact hx
        | leave hframes => exact hx
      · obtain ⟨y, hy, hyx⟩ := hleads x hx
        obtain ⟨z, hz, hzy⟩ := hstep.visited_leads hs hframes y hy
        exact ⟨z, hz, hzy.trans hyx⟩

/-- The search of a root that has not been visited. -/
lemma search_root {root : ι} (hs : s.Valid next) (hframes : s.frames = [])
    (hnew : root ∉ s.visited)
    (ha : I a ⟨s.visited ++ [root], s.order, [(root, next root)]⟩) :
    ∃ a' s' fuel₀, (∀ fuel, fuel₀ ≤ fuel → whileLoop cond body fuel a = some a') ∧ I a' s' ∧
      s'.Valid next ∧ s'.frames = [] ∧
      (∀ x, x ∈ s'.visited ↔ x ∈ s.visited ∨ Leads next root x) ∧
      Explores next s.visited s.order [root] s'.visited s'.order := by
  have hstart : (⟨s.visited ++ [root], s.order, [(root, next root)]⟩ : Search ι).Valid next :=
    (SearchStep.start hframes hnew).valid hs
  obtain ⟨a', s', fuel₀, hend, ha', hs', hframes', hmono, hleads, visited₁, order₁, hnext, hlast⟩ :=
    search_loop hnodes hcond hbody ha hstart
  refine ⟨a', s', fuel₀, hend, ha', hs', hframes', fun x => ⟨fun hx => ?_, ?_⟩, ?_⟩
  · obtain ⟨y, hy, hyx⟩ := hleads x hx
    rcases mem_append.mp hy with hy | hy
    · -- What was visited before a root is closed under the edges.
      exact .inl ((hs.complete hframes).2 y hy x hyx)
    · rw [mem_singleton.mp hy] at hyx
      exact .inr hyx
  · rintro (hx | hx)
    · exact hmono x (mem_append_left _ hx)
    · exact (hs'.complete hframes').2 root
        (hmono root (mem_append_right _ (mem_singleton_self _))) x hx
  · rw [← hlast.1, ← hlast.2]
    exact .new hnew hnext .nil

end

end Oseo.Library
