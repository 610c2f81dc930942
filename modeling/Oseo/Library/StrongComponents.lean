import Oseo.Library.DepthFirstSearch
import Mathlib.Data.List.TakeWhile

/-!
# Strong components by low links

What a depth-first search keeps beside its frames to find the strong components: a stack of
the visited nodes whose component is not complete, and for every node on it a low link, the
place of a node on the stack that it leads to. An innermost node that is left with its own place
as low link is the first visited one of its component, which is the stack down to it.
-/

namespace Oseo.Library

open Prod (fst)
open Nat
open Function
open List

variable {ι : Type*} [DecidableEq ι] {next : ι → List ι}

/-- The low links, the stack (the latest node first), and the components found. -/
structure LowLinks (ι : Type*) where
  low : ι → ℕ
  stack : List ι
  found : List (List ι)

/-- What is done when the search `s` takes a step: a component is complete when its first node
is left, and the low link of a node goes to the node it is left for. -/
def LowLinks.step (l : LowLinks ι) (s : Search ι) : SearchEvent ι → LowLinks ι
  | .enter v => { l with low := Function.update l.low v s.visited.length, stack := v :: l.stack }
  | .see u v =>
    if v ∈ l.stack then { l with low := Function.update l.low u (min (l.low u) (s.pos v)) } else l
  | .leave u =>
    let l' : LowLinks ι :=
      if l.low u = s.pos u then
        { l with
          stack := (l.stack.dropWhile (· ≠ u)).tail
          found := l.found ++ [l.stack.takeWhile (· ≠ u) ++ [u]] }
      else l
    match s.openNodes.tail with
    | [] => l'
    | parent :: _ =>
      { l' with low := Function.update l'.low parent (min (l'.low parent) (l'.low u)) }

/-- An edge that the search has looked at. -/
def Search.Looked (next : ι → List ι) (s : Search ι) (x w : ι) : Prop :=
  w ∈ next x ∧ ∀ rest, (x, rest) ∈ s.frames → ∃ looked, next x = looked ++ rest ∧ w ∈ looked

/-- What holds of the low links during a search. -/
structure LowLinks.Valid (next : ι → List ι) (s : Search ι) (l : LowLinks ι) : Prop where
  stack_visited : ∀ x ∈ l.stack, x ∈ s.visited
  stack_sorted : l.stack.Pairwise fun x y => s.pos y < s.pos x
  opened : ∀ u ∈ s.openNodes, u ∈ l.stack
  low_le : ∀ x ∈ l.stack, l.low x ≤ s.pos x
  low_leads : ∀ x ∈ l.stack, ∃ w ∈ l.stack, s.pos w = l.low x ∧ Leads next x w
  low_lt : ∀ x ∈ l.stack, x ∉ s.openNodes → l.low x < s.pos x
  under : ∀ x ∈ l.stack, ∃ q ∈ s.openNodes, s.pos q ≤ s.pos x
  low_edge : ∀ inner q outer, s.openNodes = inner ++ q :: outer → ∀ x ∈ l.stack,
    s.pos q ≤ s.pos x → ∀ w ∈ l.stack, s.Looked next x w → ∃ q' ∈ inner ++ [q], l.low q' ≤ s.pos w
  done : ∀ x, x ∈ s.visited ∧ x ∉ l.stack ↔ x ∈ l.found.flatten
  done_closed : ∀ x ∈ l.found.flatten, ∀ w ∈ next x, w ∈ l.found.flatten
  components : ∀ c ∈ l.found, ∀ x ∈ c, ∀ y, y ∈ c ↔ Leads next x y ∧ Leads next y x
  found_nodup : l.found.flatten.Nodup
  found_last : ∀ c ∈ l.found, ∃ root, c.getLast? = some root ∧ ∀ x ∈ c, s.pos root ≤ s.pos x

/-- The low links before a search. -/
def LowLinks.empty : LowLinks ι := ⟨fun _ => 0, [], []⟩

lemma LowLinks.empty_valid : (LowLinks.empty : LowLinks ι).Valid next Search.empty := by
  constructor <;> simp [LowLinks.empty, Search.empty, Search.openNodes]

section
variable {s s' : Search ι} {l : LowLinks ι} {u v x y : ι}

lemma LowLinks.Valid.not_found (h : l.Valid next s) (hx : x ∈ l.stack) :
    x ∉ l.found.flatten := fun hmem => ((h.done x).mpr hmem).2 hx

lemma LowLinks.Valid.found_leads (h : l.Valid next s) (hx : x ∈ l.found.flatten)
    (hleads : Leads next x y) : y ∈ l.found.flatten := by
  induction hleads with
  | refl => exact hx
  | tail _ hedge ih => exact h.done_closed _ ih _ hedge

/-! ## Entering a node -/

/-- A new node is put on the stack, with its own place as low link. -/
lemma LowLinks.Valid.enter (h : l.Valid next s) (hs : s.Valid next) (hnew : v ∉ s.visited)
    (hvisited : s'.visited = s.visited ++ [v]) (hopen : s'.openNodes = v :: s.openNodes)
    (hframe : (v, next v) ∈ s'.frames)
    (hlooked : ∀ x w, x ∈ s.visited → w ∈ s.visited → s'.Looked next x w → s.Looked next x w) :
    (l.step s (.enter v)).Valid next s' := by
  have hpos : ∀ x ∈ s.visited, s'.pos x = s.pos x := by
    intro x hx
    unfold Search.pos
    rw [hvisited]
    exact idxOf_concat_of_mem hx
  have hposv : s'.pos v = s.visited.length := by
    unfold Search.pos
    rw [hvisited]
    exact idxOf_concat_self hnew
  have hne : ∀ x ∈ s.visited, x ≠ v := fun x hx heq => hnew (heq ▸ hx)
  have hlow : ∀ x ∈ s.visited, (l.step s (.enter v)).low x = l.low x := fun x hx =>
    update_of_ne (hne x hx) _ _
  have hlowv : (l.step s (.enter v)).low v = s.visited.length := update_self _ _ _
  have hstack : (l.step s (.enter v)).stack = v :: l.stack := rfl
  have hfound : (l.step s (.enter v)).found = l.found := rfl
  -- No edge of the new node has been looked at.
  have hfresh : ∀ w, ¬s'.Looked next v w := by
    intro w hw
    obtain ⟨looked, hnext, hmem⟩ := hw.2 (next v) hframe
    have hnil : looked = [] := by simpa using hnext
    rw [hnil] at hmem
    exact absurd hmem not_mem_nil
  have hopenv : ∀ q ∈ s.openNodes, q ∈ s.visited := fun q hq => (hs.visited q).mpr (.inr hq)
  constructor
  case stack_visited =>
    intro x hx
    rw [hvisited]
    rcases mem_cons.mp (hstack ▸ hx) with rfl | hx
    · exact mem_append_right _ (mem_singleton_self _)
    · exact mem_append_left _ (h.stack_visited x hx)
  case stack_sorted =>
    rw [hstack, pairwise_cons]
    constructor
    · intro x hx
      have hmem := h.stack_visited x hx
      rw [hpos x hmem, hposv]
      exact Search.pos_lt hmem
    · refine h.stack_sorted.imp_of_mem fun {x y} hx hy hlt => ?_
      rwa [hpos x (h.stack_visited x hx), hpos y (h.stack_visited y hy)]
  case opened =>
    intro q hq
    rw [hopen] at hq
    rw [hstack]
    rcases mem_cons.mp hq with rfl | hq
    · exact mem_cons_self
    · exact mem_cons_of_mem _ (h.opened q hq)
  case low_le =>
    intro x hx
    rcases mem_cons.mp (hstack ▸ hx) with rfl | hx
    · rw [hlowv, hposv]
    · rw [hlow x (h.stack_visited x hx), hpos x (h.stack_visited x hx)]
      exact h.low_le x hx
  case low_leads =>
    intro x hx
    rcases mem_cons.mp (hstack ▸ hx) with rfl | hx
    · exact ⟨x, hx, by rw [hlowv, hposv], .refl x⟩
    · obtain ⟨w, hw, heq, hleads⟩ := h.low_leads x hx
      refine ⟨w, mem_cons_of_mem _ hw, ?_, hleads⟩
      rw [hlow x (h.stack_visited x hx), hpos w (h.stack_visited w hw), heq]
  case low_lt =>
    intro x hx hnot
    rw [hopen, mem_cons, not_or] at hnot
    have hx' := (mem_cons.mp (hstack ▸ hx)).resolve_left hnot.1
    rw [hlow x (h.stack_visited x hx'), hpos x (h.stack_visited x hx')]
    exact h.low_lt x hx' hnot.2
  case under =>
    intro x hx
    rw [hopen]
    rcases mem_cons.mp (hstack ▸ hx) with rfl | hx
    · exact ⟨x, mem_cons_self, le_refl _⟩
    · obtain ⟨q, hq, hle⟩ := h.under x hx
      refine ⟨q, mem_cons_of_mem _ hq, ?_⟩
      rw [hpos q (hopenv q hq), hpos x (h.stack_visited x hx)]
      exact hle
  case low_edge =>
    intro inner q outer hsplit x hx hle w hw hlook
    rw [hopen] at hsplit
    have hxs : x ∈ l.stack := by
      refine (mem_cons.mp (hstack ▸ hx)).resolve_left ?_
      rintro rfl
      exact hfresh w hlook
    have hxv := h.stack_visited x hxs
    cases inner with
    | nil =>
      -- Nothing on the stack comes after the new node.
      rw [nil_append, cons.injEq] at hsplit
      rw [← hsplit.1, hposv, hpos x hxv] at hle
      have := Search.pos_lt hxv
      omega
    | cons q₀ inner =>
      rw [cons_append, cons.injEq] at hsplit
      obtain ⟨rfl, hsplit⟩ := hsplit
      have hqv : q ∈ s.visited := hopenv q (by rw [hsplit]; simp)
      rw [hpos q hqv, hpos x hxv] at hle
      rcases mem_cons.mp (hstack ▸ hw) with rfl | hws
      · exact ⟨w, mem_cons_self, by rw [hlowv, hposv]⟩
      · have hwv := h.stack_visited w hws
        obtain ⟨q', hq', hlow'⟩ :=
          h.low_edge inner q outer hsplit x hxs hle w hws (hlooked x w hxv hwv hlook)
        refine ⟨q', mem_cons_of_mem _ hq', ?_⟩
        have hq'v : q' ∈ s.visited := by
          refine hopenv q' ?_
          rw [hsplit]
          rcases mem_append.mp hq' with hq' | hq'
          · exact mem_append_left _ hq'
          · rw [mem_singleton.mp hq']
            simp
        rw [hlow q' hq'v, hpos w hwv]
        exact hlow'
  case done =>
    intro x
    rw [hfound, ← h.done, hvisited, hstack]
    simp only [mem_append, mem_cons, not_mem_nil, or_false]
    constructor
    · rintro ⟨hmem, hnot⟩
      rw [not_or] at hnot
      exact ⟨hmem.resolve_right hnot.1, hnot.2⟩
    · rintro ⟨hmem, hnot⟩
      exact ⟨.inl hmem, by rw [not_or]; exact ⟨hne x hmem, hnot⟩⟩
  case done_closed => exact h.done_closed
  case components => exact h.components
  case found_nodup => exact h.found_nodup
  case found_last =>
    intro c hc
    obtain ⟨root, hlast, hmin⟩ := h.found_last c hc
    refine ⟨root, hlast, fun x hx => ?_⟩
    have hmem : ∀ y ∈ c, y ∈ s.visited := fun y hy =>
      ((h.done y).mpr (mem_flatten.mpr ⟨c, hc, hy⟩)).1
    rw [hpos root (hmem root (mem_of_getLast? hlast)), hpos x (hmem x hx)]
    exact hmin x hx

/-- When a search moves past a successor, that edge is the only new one it has looked at. -/
lemma Search.Looked.before (hs : s.Valid next) {rest : List ι} {frames : List (ι × List ι)}
    (hframes : s.frames = (u, v :: rest) :: frames)
    (hframes' : ∀ frame, frame = (u, rest) ∨ frame ∈ frames → frame ∈ s'.frames) {w : ι}
    (hlook : s'.Looked next x w) : s.Looked next x w ∨ x = u ∧ w = v := by
  by_cases heq : x = u ∧ w = v
  · exact .inr heq
  · refine .inl ⟨hlook.1, fun left hmem => ?_⟩
    rw [hframes] at hmem
    rcases mem_cons.mp hmem with htop | hmem
    · cases htop
      obtain ⟨looked, hnext, hw⟩ := hlook.2 rest (hframes' _ (.inl rfl))
      obtain ⟨looked', hnext', -⟩ := hs.seen u (v :: rest) (by rw [hframes]; simp)
      refine ⟨looked', hnext', ?_⟩
      have hsame : looked = looked' ++ [v] := by
        rw [hnext, append_cons] at hnext'
        exact append_cancel_right hnext'
      rw [hsame] at hw
      rcases mem_append.mp hw with hw | hw
      · exact hw
      · exact absurd ⟨rfl, mem_singleton.mp hw⟩ heq
    · exact hlook.2 left (hframes' _ (.inr hmem))

/-! ## Looking at a visited node -/

/-- The low link of the innermost node takes the place of a node on the stack. -/
lemma LowLinks.Valid.see (h : l.Valid next s) (hs : s.Valid next) {rest : List ι}
    {frames : List (ι × List ι)} (hframes : s.frames = (u, v :: rest) :: frames) :
    (l.step s (.see u v)).Valid next ⟨s.visited, s.order, (u, rest) :: frames⟩ := by
  have htop : s.openNodes = u :: frames.map fst := congrArg (map fst) hframes
  have hopen : (⟨s.visited, s.order, (u, rest) :: frames⟩ : Search ι).openNodes =
      s.openNodes := htop.symm
  have hustack : u ∈ l.stack := h.opened u (by rw [htop]; exact mem_cons_self)
  have hlooked : ∀ x w, (⟨s.visited, s.order, (u, rest) :: frames⟩ : Search ι).Looked next x w →
      s.Looked next x w ∨ x = u ∧ w = v := fun x w hlook =>
    hlook.before hs hframes fun frame hmem => by simpa using hmem
  by_cases hv : v ∈ l.stack
  · have hstep : l.step s (.see u v) =
        { l with low := update l.low u (min (l.low u) (s.pos v)) } := if_pos hv
    have hlow : ∀ x, (l.step s (.see u v)).low x =
        if x = u then min (l.low u) (s.pos v) else l.low x := by
      intro x
      rw [hstep]
      exact update_apply _ _ _ _
    have hle : ∀ x, (l.step s (.see u v)).low x ≤ l.low x := by
      intro x
      rw [hlow]
      split
      · next heq =>
        rw [heq]
        exact min_le_left _ _
      · exact le_refl _
    obtain ⟨looked, hnext, -⟩ := hs.seen u (v :: rest) (by rw [hframes]; simp)
    have hedge : Leads next u v := .edge (by rw [hnext]; simp)
    rw [hstep] at hlow hle ⊢
    constructor
    case stack_visited => exact h.stack_visited
    case stack_sorted => exact h.stack_sorted
    case opened =>
      rw [hopen]
      exact h.opened
    case low_le => exact fun x hx => le_trans (hle x) (h.low_le x hx)
    case low_leads =>
      intro x hx
      rw [hlow]
      split
      · next heq =>
        rw [heq]
        by_cases hmin : l.low u ≤ s.pos v
        · rw [min_eq_left hmin]
          exact h.low_leads u hustack
        · rw [min_eq_right (by omega)]
          exact ⟨v, hv, rfl, hedge⟩
      · exact h.low_leads x hx
    case low_lt =>
      intro x hx hnot
      rw [hopen] at hnot
      exact lt_of_le_of_lt (hle x) (h.low_lt x hx hnot)
    case under =>
      rw [hopen]
      exact h.under
    case low_edge =>
      intro inner q outer hsplit x hx hqx w hw hlook
      rw [hopen] at hsplit
      rcases hlooked x w hlook with hlook | ⟨rfl, rfl⟩
      · obtain ⟨q', hq', hlow'⟩ := h.low_edge inner q outer hsplit x hx hqx w hw hlook
        exact ⟨q', hq', le_trans (hle q') hlow'⟩
      · refine ⟨x, ?_, ?_⟩
        · -- The innermost node is the first of every part of the open nodes.
          rw [htop] at hsplit
          cases inner with
          | nil =>
            rw [nil_append, cons.injEq] at hsplit
            rw [hsplit.1]
            simp
          | cons q₀ inner =>
            rw [cons_append, cons.injEq] at hsplit
            rw [hsplit.1]
            simp
        · rw [hlow, if_pos rfl]
          exact min_le_right _ _
    case done => exact h.done
    case done_closed => exact h.done_closed
    case components => exact h.components
    case found_nodup => exact h.found_nodup
    case found_last => exact h.found_last
  · have hstep : l.step s (.see u v) = l := if_neg hv
    rw [hstep]
    refine ⟨h.stack_visited, h.stack_sorted, ?_, h.low_le, h.low_leads, ?_, ?_, ?_, h.done,
      h.done_closed, h.components, h.found_nodup, h.found_last⟩
    · rw [hopen]
      exact h.opened
    · rw [hopen]
      exact h.low_lt
    · rw [hopen]
      exact h.under
    · intro inner q outer hsplit x hx hqx w hw hlook
      rw [hopen] at hsplit
      rcases hlooked x w hlook with hlook | ⟨-, rfl⟩
      · exact h.low_edge inner q outer hsplit x hx hqx w hw hlook
      · exact absurd hw hv

/-! ## Leaving a node -/

omit [DecidableEq ι] in
/-- The edges looked at are the same before and after a node is left. -/
lemma Search.Looked.left {frames : List (ι × List ι)}
    (hframes : s.frames = (u, []) :: frames) {w : ι}
    (hlook : (⟨s.visited, s.order ++ [u], frames⟩ : Search ι).Looked next x w) :
    s.Looked next x w := by
  refine ⟨hlook.1, fun rest hmem => ?_⟩
  rw [hframes] at hmem
  rcases mem_cons.mp hmem with htop | hmem
  · cases htop
    exact ⟨next u, by simp, hlook.1⟩
  · exact hlook.2 rest hmem

/-- The low link of a node that does not close its component goes to the node it is left for. -/
lemma LowLinks.Valid.leave_open (h : l.Valid next s) (hs : s.Valid next)
    {frames : List (ι × List ι)} (hframes : s.frames = (u, []) :: frames)
    (hlow : l.low u ≠ s.pos u) :
    (l.step s (.leave u)).Valid next ⟨s.visited, s.order ++ [u], frames⟩ := by
  have htop : s.openNodes = u :: frames.map fst := congrArg (map fst) hframes
  have hopened := hs.opened
  rw [htop, pairwise_cons] at hopened
  have hustack : u ∈ l.stack := h.opened u (by rw [htop]; exact mem_cons_self)
  have hult : l.low u < s.pos u := by
    have := h.low_le u hustack
    omega
  -- The low link is the place of a node under another open node.
  obtain ⟨w₀, hw₀, hpos₀, hleads₀⟩ := h.low_leads u hustack
  obtain ⟨q₀, hq₀, hle₀⟩ := h.under w₀ hw₀
  have hq₀' : q₀ ∈ frames.map fst := by
    rw [htop] at hq₀
    refine (mem_cons.mp hq₀).resolve_left ?_
    rintro rfl
    omega
  cases houter : frames.map fst with
  | nil =>
    rw [houter] at hq₀'
    exact absurd hq₀' not_mem_nil
  | cons parent outer =>
    have hp : parent ∈ frames.map fst := by
      rw [houter]
      exact mem_cons_self
    have hpo : parent ∈ s.openNodes := by
      rw [htop]
      exact mem_cons_of_mem _ hp
    have hplt := hopened.1 parent hp
    have hstep : l.step s (.leave u) =
        { l with low := update l.low parent (min (l.low parent) (l.low u)) } := by
      unfold LowLinks.step
      simp only [if_neg hlow, htop, tail_cons, houter]
    have hlow' : ∀ x, (l.step s (.leave u)).low x =
        if x = parent then min (l.low parent) (l.low u) else l.low x := by
      intro x
      rw [hstep]
      exact update_apply _ _ _ _
    have hle : ∀ x, (l.step s (.leave u)).low x ≤ l.low x := by
      intro x
      rw [hlow']
      split
      · next heq =>
        rw [heq]
        exact min_le_left _ _
      · exact le_refl _
    rw [hstep] at hlow' hle ⊢
    constructor
    case stack_visited => exact h.stack_visited
    case stack_sorted => exact h.stack_sorted
    case opened =>
      intro q hq
      exact h.opened q (by rw [htop]; exact mem_cons_of_mem _ hq)
    case low_le => exact fun x hx => le_trans (hle x) (h.low_le x hx)
    case low_leads =>
      intro x hx
      rw [hlow']
      split
      · next heq =>
        rw [heq]
        by_cases hmin : l.low parent ≤ l.low u
        · rw [min_eq_left hmin]
          exact h.low_leads parent (h.opened parent hpo)
        · rw [min_eq_right (by omega)]
          exact ⟨w₀, hw₀, hpos₀, (hs.reaches parent hpo u (h.stack_visited u hustack)
            (le_of_lt hplt)).trans hleads₀⟩
      · exact h.low_leads x hx
    case low_lt =>
      intro x hx hnot
      refine lt_of_le_of_lt (hle x) ?_
      by_cases heq : x = u
      · rw [heq]
        exact hult
      · refine h.low_lt x hx ?_
        rw [htop, mem_cons, not_or]
        exact ⟨heq, hnot⟩
    case under =>
      intro x hx
      obtain ⟨q, hq, hqx⟩ := h.under x hx
      rw [htop] at hq
      rcases mem_cons.mp hq with rfl | hq
      · refine ⟨q₀, hq₀', le_trans hle₀ ?_⟩
        show s.pos w₀ ≤ s.pos x
        omega
      · exact ⟨q, hq, hqx⟩
    case low_edge =>
      intro inner q outer' hsplit x hx hqx w hw hlook
      have hsplit' : s.openNodes = (u :: inner) ++ q :: outer' := by
        rw [htop, cons_append]
        exact congrArg _ hsplit
      obtain ⟨q', hq', hlow''⟩ :=
        h.low_edge (u :: inner) q outer' hsplit' x hx hqx w hw (hlook.left hframes)
      rw [cons_append] at hq'
      rcases mem_cons.mp hq' with rfl | hq'
      · -- The parent has taken the low link over.
        refine ⟨parent, ?_, ?_⟩
        · have hsplit'' : parent :: outer = inner ++ q :: outer' := houter ▸ hsplit
          cases inner with
          | nil =>
            rw [nil_append, cons.injEq] at hsplit''
            rw [hsplit''.1]
            simp
          | cons q₁ inner =>
            rw [cons_append, cons.injEq] at hsplit''
            rw [hsplit''.1]
            simp
        · rw [hlow', if_pos rfl]
          exact le_trans (min_le_right _ _) hlow''
      · exact ⟨q', hq', le_trans (hle q') hlow''⟩
    case done => exact h.done
    case done_closed => exact h.done_closed
    case components => exact h.components
    case found_nodup => exact h.found_nodup
    case found_last => exact h.found_last

/-- The stack around the node that is left. -/
lemma LowLinks.Valid.stack_split (h : l.Valid next s) (hu : u ∈ l.stack) :
    ∃ above below, l.stack = above ++ u :: below ∧ l.stack.takeWhile (· ≠ u) = above ∧
      (l.stack.dropWhile (· ≠ u)).tail = below ∧ (∀ x ∈ above, s.pos u < s.pos x) ∧
      ∀ x ∈ below, s.pos x < s.pos u := by
  obtain ⟨above, below, hsplit⟩ := append_of_mem hu
  have hsorted := h.stack_sorted
  rw [hsplit, pairwise_append, pairwise_cons] at hsorted
  obtain ⟨-, hbelow, hcross⟩ := hsorted
  have habove : ∀ x ∈ above, s.pos u < s.pos x := fun x hx => hcross x hx u mem_cons_self
  have hne : ∀ x ∈ above, decide (x ≠ u) = true := by
    intro x hx
    refine decide_eq_true fun heq => ?_
    have := habove x hx
    rw [heq] at this
    omega
  refine ⟨above, below, hsplit, ?_, ?_, habove, hbelow.1⟩
  · rw [hsplit, takeWhile_append_of_pos hne]
    simp
  · rw [hsplit, dropWhile_append_of_pos hne]
    simp

section
variable (h : l.Valid next s) (hs : s.Valid next) {frames : List (ι × List ι)}
  (hframes : s.frames = (u, []) :: frames) (hlow : l.low u = s.pos u)
include h hs hframes hlow

/-- The stack down to a node that is left with its own place as low link is its component. -/
lemma LowLinks.Valid.component (hx : x ∈ l.stack) (hux : s.pos u ≤ s.pos x) :
    (∀ y, (y ∈ l.stack ∧ s.pos u ≤ s.pos y) ↔ Leads next x y ∧ Leads next y x) ∧
      ∀ w ∈ next x, (w ∈ l.stack ∧ s.pos u ≤ s.pos w) ∨ w ∈ l.found.flatten := by
  have htop : s.openNodes = u :: frames.map fst := congrArg (map fst) hframes
  have hopened := hs.opened
  rw [htop, pairwise_cons] at hopened
  have huo : u ∈ s.openNodes := by
    rw [htop]
    exact mem_cons_self
  have hustack : u ∈ l.stack := h.opened u huo
  -- Of the nodes from `u` on, only `u` is open.
  have hclosed : ∀ z, s.pos u ≤ s.pos z → z ≠ u → z ∉ s.openNodes := by
    intro z hle hne hmem
    rw [htop] at hmem
    have := hopened.1 z ((mem_cons.mp hmem).resolve_left hne)
    omega
  have hedge : ∀ z ∈ l.stack, s.pos u ≤ s.pos z → ∀ w ∈ next z,
      (w ∈ l.stack ∧ s.pos u ≤ s.pos w) ∨ w ∈ l.found.flatten := by
    intro z hz hle w hw
    have hwv : w ∈ s.visited ∧ s.Looked next z w := by
      by_cases heq : z = u
      · subst heq
        refine ⟨hs.explored_top hframes w hw, hw, fun rest hmem => ?_⟩
        rw [hframes] at hmem
        rcases mem_cons.mp hmem with heq | hmem
        · cases heq
          exact ⟨next z, by simp, hw⟩
        · have := hopened.1 z (mem_map_of_mem hmem)
          omega
      · have hnot := hclosed z hle heq
        have hz' := ((hs.visited z).mp (h.stack_visited z hz)).resolve_right hnot
        exact ⟨hs.explored z hz' w hw, hw, fun rest hmem => absurd (mem_map_of_mem hmem) hnot⟩
    by_cases hws : w ∈ l.stack
    · left
      obtain ⟨q', hq', hle'⟩ := h.low_edge [] u _ htop z hz hle w hws hwv.2
      rw [nil_append, mem_singleton] at hq'
      rw [hq', hlow] at hle'
      exact ⟨hws, hle'⟩
    · exact .inr ((h.done w).mp ⟨hwv.1, hws⟩)
  have hpath : ∀ z y, z ∈ l.stack → s.pos u ≤ s.pos z → Leads next z y →
      (y ∈ l.stack ∧ s.pos u ≤ s.pos y) ∨ y ∈ l.found.flatten := by
    intro z y hz hle hleads
    induction hleads with
    | refl => exact .inl ⟨hz, hle⟩
    | tail _ hstep ih =>
      rcases ih with ⟨hy, hle'⟩ | hy
      · exact hedge _ hy hle' _ hstep
      · exact .inr (h.done_closed _ hy _ hstep)
  -- Along the low links, every node from `u` on leads back to `u`.
  have hback : ∀ k z, s.pos z = k → z ∈ l.stack → s.pos u ≤ s.pos z → Leads next z u := by
    intro k
    induction k using Nat.strongRecOn with
    | ind k ih =>
      intro z hk hz hle
      by_cases heq : z = u
      · rw [heq]
        exact .refl u
      · obtain ⟨w, hw, hpos, hleads⟩ := h.low_leads z hz
        have hlt := h.low_lt z hz (hclosed z hle heq)
        rcases hpath z w hz hle hleads with ⟨-, hle'⟩ | hfound
        · exact hleads.trans (ih (s.pos w) (by omega) w rfl hw hle')
        · exact absurd hfound (h.not_found hw)
  have hforth : ∀ z ∈ l.stack, s.pos u ≤ s.pos z → Leads next u z := fun z hz hle =>
    hs.reaches u huo z (h.stack_visited z hz) hle
  refine ⟨fun y => ⟨fun ⟨hy, hle⟩ => ?_, fun ⟨hxy, hyx⟩ => ?_⟩, hedge x hx hux⟩
  · exact ⟨(hback _ x rfl hx hux).trans (hforth y hy hle),
      (hback _ y rfl hy hle).trans (hforth x hx hux)⟩
  · refine (hpath x y hx hux hxy).resolve_right fun hfound => ?_
    exact h.not_found hx (h.found_leads hfound hyx)

/-- A node that closes its component takes it off the stack. -/
lemma LowLinks.Valid.leave_closed :
    (l.step s (.leave u)).Valid next ⟨s.visited, s.order ++ [u], frames⟩ := by
  have htop : s.openNodes = u :: frames.map fst := congrArg (map fst) hframes
  have hopened := hs.opened
  rw [htop, pairwise_cons] at hopened
  have huo : u ∈ s.openNodes := by
    rw [htop]
    exact mem_cons_self
  obtain ⟨above, below, hsplit, htake, hdrop, habove, hbelow⟩ := h.stack_split (h.opened u huo)
  have hmem : ∀ x, x ∈ l.stack ↔ x ∈ above ++ [u] ∨ x ∈ below := by
    intro x
    rw [hsplit]
    simp [or_assoc]
  have hcomp : ∀ x, x ∈ above ++ [u] ↔ x ∈ l.stack ∧ s.pos u ≤ s.pos x := by
    intro x
    rw [hmem]
    constructor
    · intro hx
      refine ⟨.inl hx, ?_⟩
      rcases mem_append.mp hx with hx | hx
      · exact le_of_lt (habove x hx)
      · rw [mem_singleton.mp hx]
    · rintro ⟨hx | hx, hle⟩
      · exact hx
      · have := hbelow x hx
        omega
  have hbelowStack : ∀ x ∈ below, x ∈ l.stack := fun x hx => (hmem x).mpr (.inr hx)
  have hstay : ∀ x ∈ l.stack, s.pos x < s.pos u → x ∈ below := by
    intro x hx hlt
    refine ((hmem x).mp hx).resolve_left fun hx' => ?_
    have := ((hcomp x).mp hx').2
    omega
  -- No low link changes: the parent has been visited before `u`.
  have hlow' : (l.step s (.leave u)).low = l.low := by
    unfold LowLinks.step
    rw [htop, tail_cons]
    simp only [if_pos hlow]
    cases houter : frames.map fst with
    | nil => rfl
    | cons parent outer =>
      have hp : parent ∈ frames.map fst := by
        rw [houter]
        exact mem_cons_self
      have hplt := hopened.1 parent hp
      have hple := h.low_le parent (h.opened parent (by rw [htop]; exact mem_cons_of_mem _ hp))
      have hmin : min (l.low parent) (l.low u) = l.low parent := min_eq_left (by omega)
      show update l.low parent (min (l.low parent) (l.low u)) = l.low
      rw [hmin, update_eq_self]
  have hstack : (l.step s (.leave u)).stack = below := by
    unfold LowLinks.step
    simp only [if_pos hlow, hdrop]
    split <;> rfl
  have hfound : (l.step s (.leave u)).found = l.found ++ [above ++ [u]] := by
    unfold LowLinks.step
    simp only [if_pos hlow, htake]
    split <;> rfl
  have hflatten : (l.step s (.leave u)).found.flatten = l.found.flatten ++ (above ++ [u]) := by
    rw [hfound]
    simp
  constructor
  case stack_visited =>
    intro x hx
    exact h.stack_visited x (hbelowStack x (hstack ▸ hx))
  case stack_sorted =>
    have hsorted := h.stack_sorted
    rw [hsplit, pairwise_append, pairwise_cons] at hsorted
    rw [hstack]
    exact hsorted.2.1.2
  case opened =>
    intro q hq
    rw [hstack]
    exact hstay q (h.opened q (by rw [htop]; exact mem_cons_of_mem _ hq)) (hopened.1 q hq)
  case low_le =>
    intro x hx
    rw [hlow']
    exact h.low_le x (hbelowStack x (hstack ▸ hx))
  case low_leads =>
    intro x hx
    rw [hstack] at hx ⊢
    rw [hlow']
    obtain ⟨w, hw, hpos, hleads⟩ := h.low_leads x (hbelowStack x hx)
    have hle := h.low_le x (hbelowStack x hx)
    have hlt := hbelow x hx
    exact ⟨w, hstay w hw (by omega), hpos, hleads⟩
  case low_lt =>
    intro x hx hnot
    rw [hstack] at hx
    rw [hlow']
    refine h.low_lt x (hbelowStack x hx) ?_
    rw [htop, mem_cons, not_or]
    refine ⟨?_, hnot⟩
    rintro rfl
    exact lt_irrefl _ (hbelow x hx)
  case under =>
    intro x hx
    rw [hstack] at hx
    obtain ⟨q, hq, hle⟩ := h.under x (hbelowStack x hx)
    refine ⟨q, ?_, hle⟩
    rw [htop] at hq
    refine (mem_cons.mp hq).resolve_left ?_
    rintro rfl
    have := hbelow x hx
    omega
  case low_edge =>
    intro inner q outer hsplit' x hx hqx w hw hlook
    rw [hstack] at hx hw
    have hsplit'' : s.openNodes = (u :: inner) ++ q :: outer := by
      rw [htop, cons_append]
      exact congrArg _ hsplit'
    obtain ⟨q', hq', hle⟩ := h.low_edge (u :: inner) q outer hsplit'' x (hbelowStack x hx) hqx w
      (hbelowStack w hw) (hlook.left hframes)
    rw [hlow']
    rw [cons_append] at hq'
    rcases mem_cons.mp hq' with rfl | hq'
    · have := hbelow w hw
      omega
    · exact ⟨q', hq', hle⟩
  case done =>
    intro x
    rw [hflatten, hstack, mem_append, ← h.done, hcomp]
    show x ∈ s.visited ∧ x ∉ below ↔ _
    constructor
    · rintro ⟨hv, hnot⟩
      by_cases hx : x ∈ l.stack
      · refine .inr ⟨hx, ?_⟩
        by_contra hlt
        exact hnot (hstay x hx (by omega))
      · exact .inl ⟨hv, hx⟩
    · rintro (⟨hv, hnot⟩ | ⟨hx, hle⟩)
      · exact ⟨hv, fun hx => hnot (hbelowStack x hx)⟩
      · refine ⟨h.stack_visited x hx, fun hx' => ?_⟩
        have := hbelow x hx'
        omega
  case done_closed =>
    intro x hx w hw
    rw [hflatten, mem_append] at hx ⊢
    rcases hx with hx | hx
    · exact .inl (h.done_closed x hx w hw)
    · obtain ⟨hx', hle⟩ := (hcomp x).mp hx
      rcases (h.component hs hframes hlow hx' hle).2 w hw with hw' | hw'
      · exact .inr ((hcomp w).mpr hw')
      · exact .inl hw'
  case components =>
    intro c hc x hx y
    rw [hfound] at hc
    rcases mem_append.mp hc with hc | hc
    · exact h.components c hc x hx y
    · rw [mem_singleton.mp hc] at hx ⊢
      obtain ⟨hx', hle⟩ := (hcomp x).mp hx
      rw [hcomp]
      exact (h.component hs hframes hlow hx' hle).1 y
  case found_nodup =>
    rw [hflatten, nodup_append]
    refine ⟨h.found_nodup, ?_, ?_⟩
    · have hsorted := h.stack_sorted
      rw [hsplit, append_cons, pairwise_append] at hsorted
      refine hsorted.1.imp fun {a b} hlt heq => ?_
      rw [heq] at hlt
      exact lt_irrefl _ hlt
    · rintro a ha b hb rfl
      exact h.not_found ((hcomp a).mp hb).1 ha
  case found_last =>
    intro c hc
    rw [hfound] at hc
    rcases mem_append.mp hc with hc | hc
    · exact h.found_last c hc
    · rw [mem_singleton.mp hc]
      exact ⟨u, by simp, fun x hx => ((hcomp x).mp hx).2⟩

end

/-- Every iteration keeps the low links. -/
theorem LowLinks.Valid.step {event : SearchEvent ι} (h : l.Valid next s) (hs : s.Valid next)
    (hstep : SearchStep next s event s') : (l.step s event).Valid next s' := by
  cases hstep with
  | @start v hframes hnew =>
    have hopen : s.openNodes = [] := congrArg (map fst) hframes
    refine h.enter hs hnew rfl (by rw [hopen]; rfl) mem_cons_self fun x w _ _ hlook => ?_
    refine ⟨hlook.1, fun rest hmem => ?_⟩
    rw [hframes] at hmem
    exact absurd hmem not_mem_nil
  | @descend u v rest frames hframes hnew =>
    have hopen : s.openNodes = u :: frames.map fst := congrArg (map fst) hframes
    refine h.enter hs hnew rfl (by rw [hopen]; rfl) mem_cons_self fun x w _ hw hlook => ?_
    have hbefore := hlook.before hs hframes fun frame hmem => by
      rcases hmem with rfl | hmem
      · exact mem_cons_of_mem _ mem_cons_self
      · exact mem_cons_of_mem _ (mem_cons_of_mem _ hmem)
    refine hbefore.resolve_right ?_
    rintro ⟨-, rfl⟩
    exact hnew hw
  | @see u v rest frames hframes hold => exact h.see hs hframes
  | @leave u frames hframes =>
    by_cases hlow : l.low u = s.pos u
    · exact h.leave_closed hs hframes hlow
    · exact h.leave_open hs hframes hlow

/-- Without open frames, the stack is empty and every visited node is in its component. -/
lemma LowLinks.Valid.complete (h : l.Valid next s) (hframes : s.frames = []) :
    l.stack = [] ∧ ∀ x, x ∈ l.found.flatten ↔ x ∈ s.visited := by
  have hstack : l.stack = [] := by
    rw [eq_nil_iff_forall_not_mem]
    intro x hx
    obtain ⟨q, hq, -⟩ := h.under x hx
    unfold Search.openNodes at hq
    rw [hframes] at hq
    exact absurd hq not_mem_nil
  refine ⟨hstack, fun x => ?_⟩
  rw [← h.done, hstack]
  simp

end

end Oseo.Library
