import Oseo.Library.InsertionMap
import Oseo.Library.StrongComponents
import Mathlib.Data.List.MinMax
import Mathlib.Data.List.Perm.Basic

/-!
# The order and the components of a module graph

`moduleDepthFirstOrder` and `moduleComponents` of `modules.ts`: two traversals with explicit
frames, the second with the low links of Tarjan's algorithm.

* a canonical id is the list of its UTF-16 code units;
* a stack has its top first;
* the loops are given `fuel`, and a `throw` is no result.
-/

namespace Oseo.ModuleOrdering

open Oseo.Library

section

/-- A canonical module id, by its code units. -/
abbrev ModuleId := List ℕ

/-- One module, with the canonical ids of its dependencies in request order. -/
structure ModuleGraphNode where
  canonicalId : ModuleId
  dependencies : List ModuleId
deriving DecidableEq

/-- A module graph. Graph discovery records its requests, a graph built by hand may not. -/
structure ModuleGraph where
  entryId : ModuleId
  modules : List ModuleGraphNode
  hasRequests : Bool

/-- The modules by their ids. -/
def ModuleGraph.nodes (graph : ModuleGraph) : InsertionMap ModuleId ModuleGraphNode :=
  graph.modules.foldl (fun nodes module => nodes.set module.canonicalId module) .empty

/-- The dependencies of an id, none if it is not a module. -/
def ModuleGraph.dependencies (graph : ModuleGraph) (moduleId : ModuleId) : List ModuleId :=
  match graph.nodes.get moduleId with
  | none => []
  | some node => node.dependencies

def compareCodeUnits (left right : ModuleId) : ℤ :=
  if left < right then -1 else if left > right then 1 else 0

/-- `toSorted` with a comparison function: a stable sort. -/
def toSorted {α : Type} (compare : α → α → ℤ) (list : List α) : List α :=
  list.mergeSort fun left right => compare left right ≤ 0

/-- A module whose dependencies are being looked at. -/
structure Frame where
  dependencyIndex : ℕ
  moduleId : ModuleId
deriving DecidableEq

/-! ## Depth-first order -/

/-- The variables of `moduleDepthFirstOrder`. -/
structure DepthFirst where
  visited : List ModuleId
  order : List ModuleId
  frames : List Frame

/-- One round of the loop in `visit`. -/
def depthFirstStep (graph : ModuleGraph) (s : DepthFirst) : Option DepthFirst :=
  match s.frames with
  | [] => none
  | frame :: frames =>
    match (graph.dependencies frame.moduleId)[frame.dependencyIndex]? with
    | some dependency =>
      let frame := { frame with dependencyIndex := frame.dependencyIndex + 1 }
      if dependency ∈ s.visited then
        some { s with frames := frame :: frames }
      else
        some { s with
          visited := s.visited ++ [dependency]
          frames := ⟨0, dependency⟩ :: frame :: frames }
    | none => some { s with order := s.order ++ [frame.moduleId], frames := frames }

/-- `visit`. -/
def visit (graph : ModuleGraph) (fuel : ℕ) (s : DepthFirst) (rootId : ModuleId) :
    Option DepthFirst :=
  if rootId ∈ s.visited then some s
  else whileLoop (fun s => !s.frames.isEmpty) (depthFirstStep graph) fuel
    { s with visited := s.visited ++ [rootId], frames := [⟨0, rootId⟩] }

def moduleDepthFirstOrder (graph : ModuleGraph) (fuel : ℕ) : Option (List ModuleId) := do
  let s ← if (graph.nodes.get graph.entryId).isSome then visit graph fuel ⟨[], [], []⟩ graph.entryId
    else some ⟨[], [], []⟩
  if graph.hasRequests then
    return s.order
  let s ← (toSorted compareCodeUnits (graph.nodes.entries.map Prod.fst)).foldlM (visit graph fuel) s
  return s.order

/-! ## Components -/

/-- The variables of `moduleComponents`. -/
structure ComponentSearch where
  indices : ModuleId → Option ℕ
  lowLinks : ModuleId → Option ℕ
  stack : List ModuleId
  stacked : ModuleId → Bool
  found : List (List ModuleId)
  nextIndex : ℕ
  frames : List Frame

/-- `begin`. -/
def ComponentSearch.begin (s : ComponentSearch) (moduleId : ModuleId) : ComponentSearch :=
  { s with
    indices := Function.update s.indices moduleId (some s.nextIndex)
    lowLinks := Function.update s.lowLinks moduleId (some s.nextIndex)
    stack := moduleId :: s.stack
    stacked := Function.update s.stacked moduleId true
    nextIndex := s.nextIndex + 1 }

/-- Pops the stack down to a module. The code throws when it is not on the stack. -/
def popComponent (moduleId : ModuleId) :
    List ModuleId → (ModuleId → Bool) → List ModuleId →
      Option (List ModuleId × (ModuleId → Bool) × List ModuleId)
  | [], _, _ => none
  | member :: stack, stacked, component =>
    let stacked := Function.update stacked member false
    let component := component ++ [member]
    if member = moduleId then some (stack, stacked, component)
    else popComponent moduleId stack stacked component

/-- A component is complete if the low link of the finished module is its own index. -/
def closeComponent (s : ComponentSearch) (moduleId : ModuleId) (index : ℕ) :
    Option ComponentSearch :=
  if s.lowLinks moduleId = some index then
    (popComponent moduleId s.stack s.stacked []).map fun (stack, stacked, component) =>
      { s with stack, stacked, found := s.found ++ [component] }
  else some s

/-- The end of a frame. The low link goes to the parent. -/
def finishFrame (s : ComponentSearch) (frame : Frame) (index : ℕ) (frames : List Frame) :
    Option ComponentSearch := do
  let s ← closeComponent s frame.moduleId index
  match frames with
  | [] => return { s with frames := [] }
  | parent :: rest =>
    let low := min ((s.lowLinks parent.moduleId).getD index) ((s.lowLinks frame.moduleId).getD index)
    return { s with
      lowLinks := Function.update s.lowLinks parent.moduleId (some low)
      frames := parent :: rest }

/-- One round of the loop in `strongConnect`. -/
def strongConnectStep (graph : ModuleGraph) (s : ComponentSearch) : Option ComponentSearch :=
  match s.frames with
  | [] => none
  | frame :: frames =>
    match s.indices frame.moduleId with
    | none => none
    | some index =>
      match (graph.dependencies frame.moduleId)[frame.dependencyIndex]? with
      | some dependency =>
        let frame := { frame with dependencyIndex := frame.dependencyIndex + 1 }
        if s.indices dependency = none then
          some { s.begin dependency with frames := ⟨0, dependency⟩ :: frame :: frames }
        else if s.stacked dependency then
          let low := min ((s.lowLinks frame.moduleId).getD index)
            ((s.indices dependency).getD index)
          some { s with
            lowLinks := Function.update s.lowLinks frame.moduleId (some low)
            frames := frame :: frames }
        else
          some { s with frames := frame :: frames }
      | none => finishFrame s frame index frames

/-- `strongConnect`, for a root that has no index yet. -/
def strongConnect (graph : ModuleGraph) (fuel : ℕ) (s : ComponentSearch) (root : ModuleId) :
    Option ComponentSearch :=
  if (s.indices root).isSome then some s
  else whileLoop (fun s => !s.frames.isEmpty) (strongConnectStep graph) fuel
    { s.begin root with frames := [⟨0, root⟩] }

/-- One strongly connected component. -/
structure ModuleComponent where
  cyclic : Bool
  id : ℕ
  moduleIds : List ModuleId
deriving DecidableEq

def maxSafeInteger : ℕ := 2 ^ 53 - 1

/-- The place of a module in the evaluation order, if it is scheduled. -/
def evaluationIndex (evaluationOrder : List ModuleId) (moduleId : ModuleId) : ℕ :=
  ((evaluationOrder.zipIdx.foldl (fun index entry => index.set entry.1 entry.2)
    (.empty : InsertionMap ModuleId ℕ)).get moduleId).getD maxSafeInteger

def compareEvaluation (evaluationOrder : List ModuleId) (left right : ModuleId) : ℤ :=
  (evaluationIndex evaluationOrder left : ℤ) - evaluationIndex evaluationOrder right

/-- The component of a sorted list of members. -/
def moduleComponent (graph : ModuleGraph) (id : ℕ) (moduleIds : List ModuleId) :
    ModuleComponent where
  cyclic := moduleIds.length > 1 ||
    match graph.nodes.get (moduleIds.headD []) with
    | none => false
    | some first => first.dependencies.any fun dependency => dependency = first.canonicalId
  id
  moduleIds

def moduleComponents (graph : ModuleGraph) (fuel : ℕ) : Option (List ModuleComponent) := do
  let s ← (graph.entryId :: graph.modules.map (·.canonicalId)).foldlM (strongConnect graph fuel)
    ⟨fun _ => none, fun _ => none, [], fun _ => false, [], 0, []⟩
  let evaluationOrder ← moduleDepthFirstOrder graph fuel
  let sorted := s.found.map (toSorted (compareEvaluation evaluationOrder))
  let components := toSorted (fun left right =>
    compareEvaluation evaluationOrder (left.headD []) (right.headD [])) sorted
  return components.zipIdx.map fun component => moduleComponent graph component.2 component.1

/-! ## The depth-first order

The loop of `visit` is a depth-first search of the dependencies, so it comes to an end, and its
order is that of the recursive search.
-/

open List

variable {graph : ModuleGraph} {s s' : DepthFirst} {moduleId rootId x y : ModuleId}

/-! ## The modules by their ids -/

lemma get_foldl_set (modules : List ModuleGraphNode)
    (nodes : InsertionMap ModuleId ModuleGraphNode) (moduleId : ModuleId) :
    (modules.foldl (fun nodes module => nodes.set module.canonicalId module) nodes).get moduleId =
      ((modules.reverse.find? fun module => module.canonicalId = moduleId).or
        (nodes.get moduleId)) := by
  induction modules generalizing nodes with
  | nil => rfl
  | cons module modules ih =>
    rw [foldl_cons, ih, InsertionMap.get_set, reverse_cons, find?_append,
      find?_singleton]
    by_cases hid : module.canonicalId = moduleId
    · cases modules.reverse.find? fun module => module.canonicalId = moduleId <;> simp [hid]
    · cases modules.reverse.find? fun module => module.canonicalId = moduleId <;>
        simp [hid, Ne.symm hid]

/-- The node of an id is the last module with this id. -/
lemma ModuleGraph.get_nodes (graph : ModuleGraph) (moduleId : ModuleId) :
    graph.nodes.get moduleId =
      graph.modules.reverse.find? fun module => module.canonicalId = moduleId := by
  unfold ModuleGraph.nodes
  rw [get_foldl_set]
  simp

lemma ModuleGraph.get_nodes_some {node : ModuleGraphNode} (h : graph.nodes.get moduleId = some node) :
    node ∈ graph.modules ∧ node.canonicalId = moduleId := by
  rw [graph.get_nodes] at h
  exact ⟨mem_reverse.mp (mem_of_find?_eq_some h), by simpa using find?_some h⟩

/-- Every id that some module depends on. -/
def ModuleGraph.dependencyIds (graph : ModuleGraph) : List ModuleId :=
  graph.modules.flatMap (·.dependencies)

lemma ModuleGraph.mem_dependencyIds (h : y ∈ graph.dependencies x) : y ∈ graph.dependencyIds := by
  unfold ModuleGraph.dependencies at h
  split at h
  · exact absurd h not_mem_nil
  · next node hnode =>
    exact mem_flatMap.mpr ⟨node, (ModuleGraph.get_nodes_some hnode).1, h⟩

/-! ## The loop of `visit` -/

/-- A frame as the successors it has not looked at yet. -/
def Frame.rest (graph : ModuleGraph) (frame : Frame) : ModuleId × List ModuleId :=
  (frame.moduleId, (graph.dependencies frame.moduleId).drop frame.dependencyIndex)

/-- The state as that of a search. -/
def DepthFirst.search (graph : ModuleGraph) (s : DepthFirst) : Search ModuleId :=
  ⟨s.visited, s.order, s.frames.map (Frame.rest graph)⟩

lemma Frame.rest_cons {frame : Frame} {dependency : ModuleId}
    (h : (graph.dependencies frame.moduleId)[frame.dependencyIndex]? = some dependency) :
    frame.rest graph = (frame.moduleId, dependency ::
      (graph.dependencies frame.moduleId).drop (frame.dependencyIndex + 1)) := by
  obtain ⟨hlt, hget⟩ := List.getElem?_eq_some_iff.mp h
  unfold Frame.rest
  rw [List.drop_eq_getElem_cons hlt, hget]

lemma Frame.rest_nil {frame : Frame}
    (h : (graph.dependencies frame.moduleId)[frame.dependencyIndex]? = none) :
    frame.rest graph = (frame.moduleId, []) := by
  unfold Frame.rest
  rw [drop_eq_nil_of_le (getElem?_eq_none_iff.mp h)]

/-- A round of the loop is an iteration of the search. -/
lemma depthFirstStep_search (hframes : s.frames ≠ []) :
    ∃ s' event, depthFirstStep graph s = some s' ∧
      SearchStep graph.dependencies (s.search graph) event (s'.search graph) := by
  obtain ⟨visited, order, frames⟩ := s
  cases frames with
  | nil => exact absurd rfl hframes
  | cons frame frames =>
    unfold depthFirstStep
    dsimp only
    cases hget : (graph.dependencies frame.moduleId)[frame.dependencyIndex]? with
    | none =>
      refine ⟨_, .leave frame.moduleId, rfl, .leave ?_⟩
      unfold DepthFirst.search
      rw [map_cons, Frame.rest_nil hget]
    | some dependency =>
      have hsearch : (DepthFirst.search graph ⟨visited, order, frame :: frames⟩).frames =
          (frame.moduleId, dependency ::
            (graph.dependencies frame.moduleId).drop (frame.dependencyIndex + 1)) ::
            frames.map (Frame.rest graph) := by
        unfold DepthFirst.search
        rw [map_cons, Frame.rest_cons hget]
      dsimp only
      by_cases hmem : dependency ∈ visited
      · rw [if_pos hmem]
        exact ⟨_, .see frame.moduleId dependency, rfl, .see hsearch hmem⟩
      · rw [if_neg hmem]
        exact ⟨_, .enter dependency, rfl, .descend hsearch hmem⟩

/-- What the search of a root leaves, in terms of the state before. -/
structure Visited (graph : ModuleGraph) (s : DepthFirst) (roots : List ModuleId)
    (s' : DepthFirst) : Prop where
  frames : s'.frames = []
  valid : (s'.search graph).Valid graph.dependencies
  visited : ∀ x, x ∈ s'.visited ↔
    x ∈ s.visited ∨ ∃ root ∈ roots, Leads graph.dependencies root x
  explores : Explores graph.dependencies s.visited s.order roots s'.visited s'.order

lemma visit_visited (hframes : s.frames = []) (hs : (s.search graph).Valid graph.dependencies)
    (rootId : ModuleId) :
    ∃ s' fuel₀, (∀ fuel, fuel₀ ≤ fuel → visit graph fuel s rootId = some s') ∧
      Visited graph s [rootId] s' := by
  by_cases hold : rootId ∈ s.visited
  · refine ⟨s, 0, fun fuel _ => if_pos hold, hframes, hs, fun x => ?_, .old hold .nil⟩
    simp only [mem_singleton, exists_eq_left]
    refine ⟨.inl, ?_⟩
    rintro (hx | hx)
    · exact hx
    · have hnone : (s.search graph).frames = [] := by
        unfold DepthFirst.search
        rw [hframes]
        rfl
      exact (hs.complete hnone).2 rootId hold x hx
  · have hstart : (DepthFirst.search graph
        { s with visited := s.visited ++ [rootId], frames := [⟨0, rootId⟩] }) =
          ⟨(s.search graph).visited ++ [rootId], (s.search graph).order,
            [(rootId, graph.dependencies rootId)]⟩ := rfl
    obtain ⟨s', t, fuel₀, hend, rfl, hvalid, hnone, hvisited, hexplores⟩ :=
      @search_root _ graph.dependencies _ _ (fun s : DepthFirst => !s.frames.isEmpty)
        (depthFirstStep graph) (fun s t => t = s.search graph) graph.dependencyIds
        (fun x y hy => ModuleGraph.mem_dependencyIds hy)
        (fun a t ht => by
          rw [ht]
          cases hframes : a.frames <;> simp [DepthFirst.search, hframes])
        (fun a t ht _ hopen => by
          rw [ht] at hopen ⊢
          obtain ⟨a', event, hround, hstep⟩ := @depthFirstStep_search graph a fun hnil => hopen (by
            unfold DepthFirst.search
            rw [hnil]
            rfl)
          exact ⟨a', event, _, hround, hstep, rfl⟩)
        { s with visited := s.visited ++ [rootId], frames := [⟨0, rootId⟩] } (s.search graph)
        rootId hs (by
          unfold DepthFirst.search
          rw [hframes]
          rfl) hold hstart.symm
    refine ⟨s', fuel₀, fun fuel hfuel => ?_, ?_, hvalid, fun x => ?_, hexplores⟩
    · rw [visit, if_neg hold, hend fuel hfuel]
    · exact map_eq_nil_iff.mp hnone
    · simp only [mem_singleton, exists_eq_left]
      exact hvisited x

/-- The search of a list of roots. -/
lemma visitAll_visited (hframes : s.frames = []) (hs : (s.search graph).Valid graph.dependencies)
    (roots : List ModuleId) :
    ∃ s' fuel₀, (∀ fuel, fuel₀ ≤ fuel → roots.foldlM (visit graph fuel) s = some s') ∧
      Visited graph s roots s' := by
  induction roots generalizing s with
  | nil => exact ⟨s, 0, fun _ _ => rfl, hframes, hs, by simp, .nil⟩
  | cons root roots ih =>
    obtain ⟨s₁, fuel₁, hvisit, hfirst⟩ := visit_visited hframes hs root
    obtain ⟨s', fuel₂, hvisits, hrest⟩ := ih hfirst.frames hfirst.valid
    refine ⟨s', fuel₁ + fuel₂, fun fuel hfuel => ?_, hrest.frames, hrest.valid, fun x => ?_,
      hfirst.explores.append hrest.explores⟩
    · rw [foldlM_cons, hvisit fuel (by omega)]
      exact hvisits fuel (by omega)
    · rw [hrest.visited, hfirst.visited]
      simp [or_assoc]

/-! ## `moduleDepthFirstOrder` -/

/-- The ids that the order is searched from: the entry, and every module if the graph has no
records of its requests. -/
def ModuleGraph.orderRoots (graph : ModuleGraph) : List ModuleId :=
  (if (graph.nodes.get graph.entryId).isSome then [graph.entryId] else []) ++
    if graph.hasRequests then []
    else toSorted compareCodeUnits (graph.nodes.entries.map Prod.fst)

lemma empty_valid : (DepthFirst.search graph ⟨[], [], []⟩).Valid graph.dependencies :=
  Search.empty_valid

lemma moduleDepthFirstOrder_eq (graph : ModuleGraph) (fuel : ℕ) :
    moduleDepthFirstOrder graph fuel =
      (graph.orderRoots.foldlM (visit graph fuel) ⟨[], [], []⟩).map (·.order) := by
  unfold moduleDepthFirstOrder ModuleGraph.orderRoots
  rw [foldlM_append]
  by_cases hentry : (graph.nodes.get graph.entryId).isSome
  · rw [if_pos hentry, if_pos hentry, foldlM_cons]
    cases visit graph fuel ⟨[], [], []⟩ graph.entryId with
    | none => rfl
    | some s =>
      cases graph.hasRequests with
      | true => rfl
      | false => exact Option.map_eq_bind.symm
  · rw [if_neg hentry, if_neg hentry]
    cases graph.hasRequests with
    | true => rfl
    | false => exact Option.map_eq_bind.symm

/-- The order is that of a search of its roots. -/
lemma moduleDepthFirstOrder_visited (graph : ModuleGraph) :
    ∃ s' fuel₀, (∀ fuel, fuel₀ ≤ fuel → moduleDepthFirstOrder graph fuel = some s'.order) ∧
      Visited graph ⟨[], [], []⟩ graph.orderRoots s' := by
  obtain ⟨s', fuel₀, hvisits, hvisited⟩ :=
    visitAll_visited (s := ⟨[], [], []⟩) rfl empty_valid graph.orderRoots
  refine ⟨s', fuel₀, fun fuel hfuel => ?_, hvisited⟩
  rw [moduleDepthFirstOrder_eq, hvisits fuel hfuel, Option.map_some]

end

/-! ## The components

The loop of `strongConnect` is a depth-first search with low links, and what it finds are the
strong components.
-/

open Function
open List

variable {graph : ModuleGraph} {s s' : ComponentSearch} {t t' : Search ModuleId}
  {l l' : LowLinks ModuleId} {moduleId root u v x y : ModuleId}

/-! ## The state as a search with low links -/

/-- The state of `strongConnect` is that of a search with its low links. -/
structure Abstracts (graph : ModuleGraph) (s : ComponentSearch) (t : Search ModuleId)
    (l : LowLinks ModuleId) : Prop where
  indices : ∀ x, s.indices x = if x ∈ t.visited then some (t.pos x) else none
  nextIndex : s.nextIndex = t.visited.length
  lowLinks : ∀ x ∈ t.visited, s.lowLinks x = some (l.low x)
  stack : s.stack = l.stack
  stacked : ∀ x, s.stacked x = true ↔ x ∈ l.stack
  found : s.found = l.found
  frames : s.frames.map (Frame.rest graph) = t.frames

/-- `begin` visits a node. -/
lemma Abstracts.begin (h : Abstracts graph s t l) (hnew : v ∉ t.visited) {frames : List Frame}
    {order : List ModuleId} :
    Abstracts graph { s.begin v with frames := frames }
      ⟨t.visited ++ [v], order, frames.map (Frame.rest graph)⟩ (l.step t (.enter v)) where
  indices := by
    intro x
    show update s.indices v (some s.nextIndex) x = if x ∈ t.visited ++ [v] then
      some (Search.pos ⟨t.visited ++ [v], order, frames.map (Frame.rest graph)⟩ x) else none
    by_cases hx : x = v
    · rw [hx, update_self, if_pos (by simp), h.nextIndex]
      exact congrArg some (idxOf_concat_self hnew).symm
    · rw [update_of_ne hx, h.indices]
      by_cases hmem : x ∈ t.visited
      · rw [if_pos hmem, if_pos (mem_append_left _ hmem)]
        exact congrArg some (idxOf_concat_of_mem hmem).symm
      · rw [if_neg hmem, if_neg (by simp [hmem, hx])]
  nextIndex := by
    show s.nextIndex + 1 = (t.visited ++ [v]).length
    rw [h.nextIndex, length_append, length_singleton]
  lowLinks := by
    intro x hx
    show update s.lowLinks v (some s.nextIndex) x =
      some (update l.low v t.visited.length x)
    by_cases heq : x = v
    · rw [heq, update_self, update_self, h.nextIndex]
    · rw [update_of_ne heq, update_of_ne heq]
      refine h.lowLinks x ((mem_append.mp hx).resolve_right ?_)
      exact fun hmem => heq (mem_singleton.mp hmem)
  stack := by
    show v :: s.stack = v :: l.stack
    rw [h.stack]
  stacked := by
    intro x
    show update s.stacked v true x = true ↔ x ∈ v :: l.stack
    by_cases heq : x = v
    · rw [heq, update_self]
      simp
    · rw [update_of_ne heq, h.stacked, mem_cons]
      simp [heq]
  found := h.found
  frames := rfl

/-! ## The end of a frame -/

/-- The stack is popped down to a module that is on it. -/
lemma popComponent_eq {stack : List ModuleId} (hmem : u ∈ stack) (stacked : ModuleId → Bool)
    (component : List ModuleId) :
    ∃ stacked', popComponent u stack stacked component =
        some ((stack.dropWhile (· ≠ u)).tail, stacked',
          component ++ (stack.takeWhile (· ≠ u) ++ [u])) ∧
      ∀ x, stacked' x = true ↔ stacked x = true ∧ x ∉ stack.takeWhile (· ≠ u) ++ [u] := by
  induction stack generalizing stacked component with
  | nil => exact absurd hmem not_mem_nil
  | cons member stack ih =>
    unfold popComponent
    by_cases heq : member = u
    · subst heq
      refine ⟨update stacked member false, ?_, fun x => ?_⟩
      · rw [if_pos rfl]
        simp
      · by_cases hx : x = member
        · simp [hx]
        · simp [hx]
    · have hmem' : u ∈ stack := (mem_cons.mp hmem).resolve_left (Ne.symm heq)
      obtain ⟨stacked', hpop, hstacked⟩ :=
        ih hmem' (update stacked member false) (component ++ [member])
      refine ⟨stacked', ?_, fun x => ?_⟩
      · rw [if_neg heq, hpop]
        simp [heq]
      · rw [hstacked]
        by_cases hx : x = member
        · simp [hx, heq]
        · simp [hx, heq]

/-- A module with its own index as low link takes its component off the stack. -/
lemma Abstracts.close (h : Abstracts graph s t l) (hl : l.Valid graph.dependencies t)
    (hu : u ∈ l.stack) :
    ∃ s₁, closeComponent s u (t.pos u) = some s₁ ∧
      Abstracts graph s₁ t (if l.low u = t.pos u then
        { l with
          stack := (l.stack.dropWhile (· ≠ u)).tail
          found := l.found ++ [l.stack.takeWhile (· ≠ u) ++ [u]] }
      else l) := by
  have hlink := h.lowLinks u (hl.stack_visited u hu)
  unfold closeComponent
  by_cases hlow : l.low u = t.pos u
  · rw [if_pos (by rw [hlink, hlow]), if_pos hlow, h.stack]
    obtain ⟨stacked', hpop, hstacked⟩ := popComponent_eq hu s.stacked []
    obtain ⟨above, below, hsplit, htake, hdrop, habove, hbelow⟩ := hl.stack_split hu
    rw [hpop, Option.map_some]
    refine ⟨_, rfl, h.indices, h.nextIndex, h.lowLinks, rfl, fun x => ?_, ?_, h.frames⟩
    · show stacked' x = true ↔ x ∈ (l.stack.dropWhile (· ≠ u)).tail
      rw [hstacked, h.stacked, htake, hdrop, hsplit]
      constructor
      · rintro ⟨hx, hnot⟩
        rw [append_cons] at hx
        exact (mem_append.mp hx).resolve_left hnot
      · intro hx
        refine ⟨mem_append_right _ (mem_cons_of_mem _ hx), fun hmem => ?_⟩
        -- What is below has been visited before `u`, and what is above after it.
        have hlt := hbelow x hx
        rcases mem_append.mp hmem with hmem | hmem
        · have := habove x hmem
          omega
        · rw [mem_singleton.mp hmem] at hlt
          exact Nat.lt_irrefl _ hlt
    · show s.found ++ [[] ++ (l.stack.takeWhile (· ≠ u) ++ [u])] = _
      rw [h.found, nil_append]
  · rw [if_neg (by simpa [hlink] using hlow), if_neg hlow]
    exact ⟨s, rfl, h⟩

section
variable (h : Abstracts graph s t l) (hl : l.Valid graph.dependencies t)
  (hs : t.Valid graph.dependencies)
include h hl hs

/-- The end of a frame leaves its node. -/
lemma Abstracts.finish {frame : Frame} {frames : List Frame}
    (hframes : s.frames = frame :: frames)
    (hrest : frame.rest graph = (frame.moduleId, [])) :
    ∃ s', finishFrame s frame (t.pos frame.moduleId) frames = some s' ∧
      Abstracts graph s' ⟨t.visited, t.order ++ [frame.moduleId], frames.map (Frame.rest graph)⟩
        (l.step t (.leave frame.moduleId)) := by
  have htop : t.frames = (frame.moduleId, []) :: frames.map (Frame.rest graph) := by
    rw [← h.frames, hframes, map_cons, hrest]
  have hopen : t.openNodes = frame.moduleId :: frames.map (·.moduleId) := by
    unfold Search.openNodes
    rw [htop, map_cons, map_map]
    rfl
  have hu : frame.moduleId ∈ l.stack := hl.opened _ (by rw [hopen]; exact mem_cons_self)
  have huv := hl.stack_visited _ hu
  obtain ⟨s₁, hclose, h₁⟩ := h.close hl hu
  unfold finishFrame LowLinks.step
  rw [hclose, hopen, tail_cons]
  simp only [bind, Option.bind_some, pure]
  generalize hl₁ : (if l.low frame.moduleId = t.pos frame.moduleId then
    ({ l with
      stack := (l.stack.dropWhile (· ≠ frame.moduleId)).tail
      found := l.found ++ [l.stack.takeWhile (· ≠ frame.moduleId) ++ [frame.moduleId]] } :
        LowLinks ModuleId)
    else l) = l₁ at h₁
  cases frames with
  | nil =>
    exact ⟨_, rfl, h₁.indices, h₁.nextIndex, h₁.lowLinks, h₁.stack, h₁.stacked, h₁.found, rfl⟩
  | cons parent rest =>
    have hparent : parent.moduleId ∈ t.visited := (hs.visited _).mpr (.inr (by
      rw [hopen, map_cons]
      exact mem_cons_of_mem _ mem_cons_self))
    refine ⟨_, rfl, h₁.indices, h₁.nextIndex, fun x hx => ?_, h₁.stack, h₁.stacked, h₁.found, rfl⟩
    show update s₁.lowLinks parent.moduleId _ x =
      some (update l₁.low parent.moduleId _ x)
    by_cases heq : x = parent.moduleId
    · rw [heq, update_self, update_self, h₁.lowLinks _ hparent,
        h₁.lowLinks _ huv]
      rfl
    · rw [update_of_ne heq, update_of_ne heq, h₁.lowLinks x hx]

/-! ## The loop of `strongConnect` -/

/-- A round of the loop is an iteration of the search. -/
lemma Abstracts.step (hopen : t.frames ≠ []) :
    ∃ s' event t', strongConnectStep graph s = some s' ∧
      SearchStep graph.dependencies t event t' ∧ Abstracts graph s' t' (l.step t event) := by
  cases hframes : s.frames with
  | nil =>
    have hnil := h.frames
    rw [hframes] at hnil
    exact absurd hnil.symm hopen
  | cons frame frames =>
    have htop := h.frames
    rw [hframes, map_cons] at htop
    have hu : frame.moduleId ∈ t.visited := by
      refine (hs.visited _).mpr (.inr ?_)
      unfold Search.openNodes
      rw [← htop, map_cons]
      exact mem_cons_self
    have hindex : s.indices frame.moduleId = some (t.pos frame.moduleId) := by
      rw [h.indices, if_pos hu]
    unfold strongConnectStep
    rw [hframes]
    simp only [hindex]
    cases hget : (graph.dependencies frame.moduleId)[frame.dependencyIndex]? with
    | none =>
      have hrest := Frame.rest_nil hget
      obtain ⟨s', hfinish, h'⟩ := h.finish hl hs hframes hrest
      rw [hrest] at htop
      exact ⟨s', .leave frame.moduleId, _, hfinish, .leave htop.symm, h'⟩
    | some dependency =>
      rw [Frame.rest_cons hget] at htop
      dsimp only
      by_cases hmem : dependency ∈ t.visited
      · have hold : s.indices dependency = some (t.pos dependency) := by
          rw [h.indices, if_pos hmem]
        rw [if_neg (by rw [hold]; simp)]
        refine ⟨if s.stacked dependency then
            { s with
              lowLinks := update s.lowLinks frame.moduleId
                (some (min (l.low frame.moduleId) (t.pos dependency)))
              frames := { frame with dependencyIndex := frame.dependencyIndex + 1 } :: frames }
          else { s with
            frames := { frame with dependencyIndex := frame.dependencyIndex + 1 } :: frames },
          .see frame.moduleId dependency, _, ?_, .see htop.symm hmem, ?_⟩
        · rw [h.lowLinks _ hu, hold]
          by_cases hstacked : s.stacked dependency = true
          · rw [if_pos hstacked, if_pos hstacked]
            rfl
          · rw [if_neg hstacked, if_neg hstacked]
        · unfold LowLinks.step
          by_cases hstacked : s.stacked dependency = true
          · rw [if_pos hstacked]
            simp only [if_pos ((h.stacked dependency).mp hstacked)]
            refine ⟨h.indices, h.nextIndex, fun x hx => ?_, h.stack, h.stacked, h.found, rfl⟩
            show update s.lowLinks frame.moduleId _ x =
              some (update l.low frame.moduleId _ x)
            by_cases heq : x = frame.moduleId
            · rw [heq, update_self, update_self]
            · rw [update_of_ne heq, update_of_ne heq, h.lowLinks x hx]
          · rw [if_neg hstacked]
            simp only [if_neg (mt (h.stacked dependency).mpr hstacked)]
            exact ⟨h.indices, h.nextIndex, h.lowLinks, h.stack, h.stacked, h.found, rfl⟩
      · have hnone : s.indices dependency = none := by
          rw [h.indices, if_neg hmem]
        rw [if_pos hnone]
        exact ⟨_, .enter dependency, _, rfl, .descend htop.symm hmem, h.begin hmem⟩

/-- What the search of a list of roots leaves, in terms of the nodes visited before. -/
structure Connected (graph : ModuleGraph) (t : Search ModuleId) (roots : List ModuleId)
    (s' : ComponentSearch) (t' : Search ModuleId) (l' : LowLinks ModuleId) : Prop where
  abstracts : Abstracts graph s' t' l'
  low : l'.Valid graph.dependencies t'
  valid : t'.Valid graph.dependencies
  frames : t'.frames = []
  visited : ∀ x, x ∈ t'.visited ↔
    x ∈ t.visited ∨ ∃ root ∈ roots, Leads graph.dependencies root x
  explores : Explores graph.dependencies t.visited t.order roots t'.visited t'.order

/-- `strongConnect` of one root. -/
lemma Abstracts.strongConnect (hframes : t.frames = []) (root : ModuleId) :
    ∃ s' t' l' fuel₀, (∀ fuel, fuel₀ ≤ fuel → strongConnect graph fuel s root = some s') ∧
      Connected graph t [root] s' t' l' := by
  by_cases hold : root ∈ t.visited
  · refine ⟨s, t, l, 0, fun fuel _ => ?_, h, hl, hs, hframes, fun x => ?_, .old hold .nil⟩
    · unfold ModuleOrdering.strongConnect
      rw [h.indices, if_pos hold]
      rfl
    · simp only [mem_singleton, exists_eq_left]
      refine ⟨.inl, ?_⟩
      rintro (hx | hx)
      · exact hx
      · exact (hs.complete hframes).2 root hold x hx
  · have hstart : Abstracts graph { s.begin root with frames := [⟨0, root⟩] }
        ⟨t.visited ++ [root], t.order, [(root, graph.dependencies root)]⟩
        (l.step t (.enter root)) := h.begin hold
    have hvalid := hl.step hs (.start hframes hold)
    obtain ⟨s', t', fuel₀, hend, ⟨l', h', hl'⟩, hs', hnone, hvisited, hexplores⟩ :=
      @search_root _ graph.dependencies _ _ (fun s : ComponentSearch => !s.frames.isEmpty)
        (strongConnectStep graph)
        (fun s t => ∃ l, Abstracts graph s t l ∧ l.Valid graph.dependencies t)
        graph.dependencyIds (fun x y hy => ModuleGraph.mem_dependencyIds hy)
        (fun a t ⟨l, ha, _⟩ => by
          rw [← ha.frames]
          cases a.frames <;> simp)
        (fun a t ⟨l, ha, hl⟩ hs hopen => by
          obtain ⟨a', event, t', hround, hstep, ha'⟩ := ha.step hl hs hopen
          exact ⟨a', event, t', hround, hstep, _, ha', hl.step hs hstep⟩)
        _ t root hs hframes hold ⟨_, hstart, hvalid⟩
    refine ⟨s', t', l', fuel₀, fun fuel hfuel => ?_, h', hl', hs', hnone, fun x => ?_, hexplores⟩
    · unfold ModuleOrdering.strongConnect
      rw [h.indices, if_neg hold]
      exact hend fuel hfuel
    · simp only [mem_singleton, exists_eq_left]
      exact hvisited x

lemma Abstracts.strongConnectAll (hframes : t.frames = []) (roots : List ModuleId) :
    ∃ s' t' l' fuel₀, (∀ fuel, fuel₀ ≤ fuel →
        roots.foldlM (ModuleOrdering.strongConnect graph fuel) s = some s') ∧
      Connected graph t roots s' t' l' := by
  induction roots generalizing s t l with
  | nil => exact ⟨s, t, l, 0, fun _ _ => rfl, h, hl, hs, hframes, by simp, .nil⟩
  | cons root roots ih =>
    obtain ⟨s₁, t₁, l₁, fuel₁, hconnect, hfirst⟩ := h.strongConnect hl hs hframes root
    obtain ⟨s', t', l', fuel₂, hconnects, hrest⟩ :=
      ih hfirst.abstracts hfirst.low hfirst.valid hfirst.frames
    refine ⟨s', t', l', fuel₁ + fuel₂, fun fuel hfuel => ?_, hrest.abstracts, hrest.low,
      hrest.valid, hrest.frames, fun x => ?_, hfirst.explores.append hrest.explores⟩
    · rw [foldlM_cons, hconnect fuel (by omega)]
      exact hconnects fuel (by omega)
    · rw [hrest.visited, hfirst.visited]
      simp [or_assoc]

end

/-- The ids that the components are searched from. -/
def ModuleGraph.componentRoots (graph : ModuleGraph) : List ModuleId :=
  graph.entryId :: graph.modules.map (·.canonicalId)

/-- The components of what the entry or a module of the graph leads to are found. -/
lemma componentRoots_connected (graph : ModuleGraph) :
    ∃ s' t' l' fuel₀, (∀ fuel, fuel₀ ≤ fuel →
        graph.componentRoots.foldlM (strongConnect graph fuel)
          ⟨fun _ => none, fun _ => none, [], fun _ => false, [], 0, []⟩ = some s') ∧
      Connected graph .empty graph.componentRoots s' t' l' := by
  refine Abstracts.strongConnectAll ?_ LowLinks.empty_valid Search.empty_valid rfl _
  constructor <;> simp [Search.empty, LowLinks.empty]

/-! ## The evaluation order of a component -/

lemma evaluationIndex_of_mem {order : List ModuleId} (hnodup : order.Nodup) (hx : x ∈ order) :
    evaluationIndex order x = Search.pos ⟨order, [], []⟩ x := by
  unfold evaluationIndex
  rw [InsertionMap.get_positions hnodup, if_pos hx, Option.getD_some, Nat.zero_add]
  rfl

lemma evaluationIndex_of_notMem {order : List ModuleId} (hnodup : order.Nodup) (hx : x ∉ order) :
    evaluationIndex order x = maxSafeInteger := by
  unfold evaluationIndex
  rw [InsertionMap.get_positions hnodup, if_neg hx, InsertionMap.get_empty]
  rfl

lemma compareEvaluation_le {order : List ModuleId} :
    compareEvaluation order x y ≤ 0 ↔ evaluationIndex order x ≤ evaluationIndex order y := by
  unfold compareEvaluation
  omega

/-- The members of a component by their place in the evaluation order. -/
lemma toSorted_evaluation_pairwise (order component : List ModuleId) :
    (toSorted (compareEvaluation order) component).Pairwise fun x y =>
      evaluationIndex order x ≤ evaluationIndex order y := by
  have hsorted := @pairwise_mergeSort _
    (fun left right => decide (compareEvaluation order left right ≤ 0))
    (fun a b c => by
      simp only [decide_eq_true_eq, compareEvaluation_le]
      exact Nat.le_trans)
    (fun a b => by
      simp only [Bool.or_eq_true, decide_eq_true_eq, compareEvaluation_le]
      exact Nat.le_total _ _)
    component
  refine hsorted.imp fun h => ?_
  rwa [decide_eq_true_eq, compareEvaluation_le] at h

/-- Members that are not scheduled stay as they are. -/
lemma toSorted_evaluation_unscheduled {order component : List ModuleId} (hnodup : order.Nodup)
    (hnone : ∀ x ∈ component, x ∉ order) :
    toSorted (compareEvaluation order) component = component := by
  apply mergeSort_of_pairwise
  rw [pairwise_iff_forall_sublist]
  intro x y hsub
  have hx := hnone x (hsub.subset (by simp))
  have hy := hnone y (hsub.subset (by simp))
  rw [decide_eq_true_eq, compareEvaluation_le, evaluationIndex_of_notMem hnodup hx,
    evaluationIndex_of_notMem hnodup hy]

/-! ## The members of a component -/

/-- A scheduled component ends with the node that the order's search visited first. -/
lemma toSorted_last_scheduled {d : DepthFirst} (hd : (d.search graph).Valid graph.dependencies)
    {component : List ModuleId} (hne : component ≠ [])
    (hstrong : ∀ x ∈ component, ∀ y, y ∈ component ↔
      Leads graph.dependencies x y ∧ Leads graph.dependencies y x)
    (hall : ∀ x ∈ component, x ∈ d.order) :
    ∃ last, (toSorted (compareEvaluation d.order) component).getLast? = some last ∧
      ∀ x ∈ component, (d.search graph).pos last ≤ (d.search graph).pos x := by
  have hnodup : d.order.Nodup := hd.order_nodup
  -- The first visited member is finished last.
  obtain ⟨first, hfirst, hmin⟩ : ∃ first ∈ component, ∀ x ∈ component,
      (d.search graph).pos first ≤ (d.search graph).pos x := by
    cases hmin : component.argmin (d.search graph).pos with
    | none => exact absurd (argmin_eq_none.mp hmin) hne
    | some first =>
      exact ⟨first, argmin_mem hmin, fun x hx => le_of_mem_argmin hx hmin⟩
  have hlast := hd.first first (hall first hfirst) fun y _ hto hfrom =>
    hmin y ((hstrong first hfirst y).mpr ⟨hto, hfrom⟩)
  have hmem : ∀ x, x ∈ toSorted (compareEvaluation d.order) component ↔ x ∈ component :=
    fun x => mem_mergeSort
  have hpairwise := toSorted_evaluation_pairwise d.order component
  rcases eq_nil_or_concat (toSorted (compareEvaluation d.order) component) with
    hnil | ⟨before, last, hsorted⟩
  · rw [← hmem first, hnil] at hfirst
    exact absurd hfirst not_mem_nil
  · rw [concat_eq_append] at hsorted
    rw [hsorted, pairwise_append] at hpairwise
    have hlastmem : last ∈ component := (hmem last).mp (by rw [hsorted]; simp)
    have heq : first = last := by
      have hfirst' := (hmem first).mpr hfirst
      rw [hsorted] at hfirst'
      rcases mem_append.mp hfirst' with hbefore | hbefore
      · have hle := hpairwise.2.2 first hbefore last (mem_singleton_self last)
        rw [evaluationIndex_of_mem hnodup (hall first hfirst),
          evaluationIndex_of_mem hnodup (hall last hlastmem)] at hle
        obtain ⟨hto, hfrom⟩ := (hstrong first hfirst last).mp hlastmem
        exact Search.pos_inj (hall first hfirst)
          (Nat.le_antisymm hle (hlast last hto hfrom).2)
      · exact mem_singleton.mp hbefore
    refine ⟨last, ?_, heq ▸ hmin⟩
    rw [hsorted, getLast?_append]
    rfl

/-- A component is cyclic if it has several members, or one that depends on itself. -/
lemma moduleComponent_cyclic (id : ℕ) {moduleIds : List ModuleId} (hne : moduleIds ≠ []) :
    (moduleComponent graph id moduleIds).cyclic = true ↔
      1 < moduleIds.length ∨ ∃ x ∈ moduleIds, x ∈ graph.dependencies x := by
  unfold moduleComponent ModuleGraph.dependencies
  cases moduleIds with
  | nil => exact absurd rfl hne
  | cons first rest =>
    cases rest with
    | cons second rest => simp
    | nil =>
      simp only [length_singleton, headD_cons, mem_singleton, exists_eq_left]
      cases hget : graph.nodes.get first with
      | none => simp
      | some node =>
        dsimp only
        rw [(ModuleGraph.get_nodes_some hget).2]
        simp

/-! ## `moduleComponents` -/

lemma moduleIds_zipIdx (graph : ModuleGraph) (found : List (List ModuleId)) :
    (found.zipIdx.map fun component =>
      moduleComponent graph component.2 component.1).map (·.moduleIds) = found := by
  rw [map_map]
  exact zipIdx_map_fst 0 found

/-- An order of what its roots lead to, as the recursive search finishes it. -/
structure PostOrder (graph : ModuleGraph) (visited order : List ModuleId) : Prop where
  explores : Explores graph.dependencies [] [] graph.orderRoots visited order
  nodup : order.Nodup
  reachable : ∀ x, x ∈ order ↔ ∃ root ∈ graph.orderRoots, Leads graph.dependencies root x
  dependencies : ∀ x ∈ order, ∀ y ∈ graph.dependencies x,
    [y, x].Sublist order ∨ Leads graph.dependencies y x

/-- The strong components of what their roots lead to. `visited` and `order` are of the search
for the order, `visited'` of the search for the components. -/
structure StrongComponents (graph : ModuleGraph) (visited order visited' : List ModuleId)
    (components : List ModuleComponent) : Prop where
  explores : ∃ order', Explores graph.dependencies [] [] graph.componentRoots visited' order'
  nodup : (components.map (·.moduleIds)).flatten.Nodup
  reachable : ∀ x, (∃ component ∈ components, x ∈ component.moduleIds) ↔
    ∃ root ∈ graph.componentRoots, Leads graph.dependencies root x
  strong : ∀ component ∈ components, ∀ x ∈ component.moduleIds, ∀ y,
    y ∈ component.moduleIds ↔ Leads graph.dependencies x y ∧ Leads graph.dependencies y x
  cyclic : ∀ component ∈ components, component.cyclic = true ↔
    1 < component.moduleIds.length ∨ ∃ x ∈ component.moduleIds, x ∈ graph.dependencies x
  last : ∀ component ∈ components, ∃ last, component.moduleIds.getLast? = some last ∧
    ∀ x ∈ component.moduleIds, x ≠ last →
      [last, x].Sublist (if last ∈ order then visited else visited')

/-- What the search of its roots leaves is a post-order. -/
lemma Visited.postOrder {d : DepthFirst} (h : Visited graph ⟨[], [], []⟩ graph.orderRoots d) :
    PostOrder graph d.visited d.order := by
  have hnone : (d.search graph).frames = [] := by
    unfold DepthFirst.search
    rw [h.frames]
    rfl
  have hall := (h.valid.complete hnone).1
  refine ⟨h.explores, h.valid.order_nodup, fun x => ?_, fun x hx y hy => ?_⟩
  · have hvisited := h.visited x
    simp only [not_mem_nil, false_or] at hvisited
    rw [← hvisited]
    exact hall x
  · refine (h.valid.earlier x hx y hy).imp_left fun ⟨hmem, hlt⟩ => ?_
    exact sublist_of_idxOf_lt hx hlt

/-- The component lists as they are returned: their members sorted, and then they. -/
def sortedComponents (order : List ModuleId) (found : List (List ModuleId)) :
    List (List ModuleId) :=
  toSorted (fun left right => compareEvaluation order (left.headD []) (right.headD []))
    (found.map (toSorted (compareEvaluation order)))

lemma sortedComponents_perm (order : List ModuleId) (found : List (List ModuleId)) :
    (sortedComponents order found).flatten.Perm found.flatten := by
  refine (mergeSort_perm _ _).flatten.trans ?_
  rw [← flatMap_def]
  refine (List.Perm.flatMap_left found fun component _ => mergeSort_perm component _).trans ?_
  rw [flatMap_id']

lemma mem_sortedComponents {order component : List ModuleId} {found : List (List ModuleId)}
    (h : component ∈ sortedComponents order found) :
    ∃ members ∈ found, component = toSorted (compareEvaluation order) members := by
  obtain ⟨members, hmembers, heq⟩ := mem_map.mp (mem_mergeSort.mp h)
  exact ⟨members, hmembers, heq.symm⟩

/-- The components that are returned are the strong ones. -/
lemma Connected.strongComponents {d : DepthFirst}
    (hd : Visited graph ⟨[], [], []⟩ graph.orderRoots d)
    (h : Connected graph .empty graph.componentRoots s' t' l') :
    StrongComponents graph d.visited d.order t'.visited
      ((sortedComponents d.order l'.found).zipIdx.map fun component =>
        moduleComponent graph component.2 component.1) := by
  have hcomplete := h.low.complete h.frames
  have horder := hd.postOrder
  have hperm := sortedComponents_perm d.order l'.found
  -- Every component that is returned is a sorted one that was found.
  have hmembers : ∀ component ∈ (sortedComponents d.order l'.found).zipIdx.map (fun component =>
      moduleComponent graph component.2 component.1), ∃ members ∈ l'.found,
      component.moduleIds = toSorted (compareEvaluation d.order) members ∧
      component = moduleComponent graph component.id component.moduleIds := by
    intro component hmem
    obtain ⟨entry, hentry, rfl⟩ := mem_map.mp hmem
    obtain ⟨members, hfound, heq⟩ := mem_sortedComponents (fst_mem_of_mem_zipIdx hentry)
    exact ⟨members, hfound, heq, rfl⟩
  have hmem : ∀ members : List ModuleId, ∀ x,
      x ∈ toSorted (compareEvaluation d.order) members ↔ x ∈ members :=
    fun members x => mem_mergeSort
  refine ⟨⟨t'.order, h.explores⟩, ?_, fun x => ?_, fun component hc => ?_, fun component hc => ?_,
    fun component hc => ?_⟩
  · rw [moduleIds_zipIdx]
    exact hperm.symm.nodup h.low.found_nodup
  · have hvisited := h.visited x
    simp only [Search.empty, not_mem_nil, false_or] at hvisited
    rw [← hvisited, ← hcomplete.2, ← hperm.mem_iff, mem_flatten]
    have hids := moduleIds_zipIdx graph (sortedComponents d.order l'.found)
    constructor
    · rintro ⟨component, hc, hx⟩
      exact ⟨component.moduleIds, hids ▸ mem_map_of_mem hc, hx⟩
    · rintro ⟨moduleIds, hmem, hx⟩
      rw [← hids] at hmem
      obtain ⟨component, hc, rfl⟩ := mem_map.mp hmem
      exact ⟨component, hc, hx⟩
  · obtain ⟨members, hfound, heq, -⟩ := hmembers component hc
    intro x hx y
    rw [heq, hmem] at hx ⊢
    exact h.low.components members hfound x hx y
  · obtain ⟨members, hfound, heq, hid⟩ := hmembers component hc
    rw [hid]
    refine moduleComponent_cyclic _ fun hnil => ?_
    obtain ⟨root, hroot, -⟩ := h.low.found_last members hfound
    have hmem' := (hmem members root).mpr (mem_of_getLast? hroot)
    rw [← heq, hnil] at hmem'
    exact absurd hmem' not_mem_nil
  · obtain ⟨members, hfound, heq, -⟩ := hmembers component hc
    obtain ⟨root, hroot, hfirst⟩ := h.low.found_last members hfound
    have hrootmem := mem_of_getLast? hroot
    have hstrong := h.low.components members hfound
    have hsame : ∀ x, x ∈ component.moduleIds ↔ x ∈ members := fun x => by rw [heq, hmem]
    by_cases hscheduled : root ∈ d.order
    · -- All members are in the order if one is.
      have hall : ∀ x ∈ members, x ∈ d.order := by
        intro x hx
        obtain ⟨from', hfrom, hleads⟩ := (horder.reachable root).mp hscheduled
        exact (horder.reachable x).mpr
          ⟨from', hfrom, hleads.trans ((hstrong root hrootmem x).mp hx).1⟩
      have hvisited : ∀ x ∈ members, x ∈ d.visited := fun x hx =>
        (hd.valid.visited x).mpr (.inl (hall x hx))
      obtain ⟨last, hlast, hle⟩ := toSorted_last_scheduled hd.valid
        (ne_nil_of_mem hrootmem) hstrong hall
      have hlastmem := (hmem members last).mp (mem_of_getLast? hlast)
      refine ⟨last, by rw [heq, hlast], fun x hx hne => ?_⟩
      rw [if_pos (hall last hlastmem)]
      exact Search.earlier_sublist (s := d.search graph) (hvisited last hlastmem)
        (hvisited x ((hsame x).mp hx)) (hle x ((hsame x).mp hx)) hne
    · have hnone : ∀ x ∈ members, x ∉ d.order := by
        intro x hx hmem
        obtain ⟨from', hfrom, hleads⟩ := (horder.reachable x).mp hmem
        exact hscheduled ((horder.reachable root).mpr
          ⟨from', hfrom, hleads.trans ((hstrong root hrootmem x).mp hx).2⟩)
      have hvisited : ∀ x ∈ members, x ∈ t'.visited := fun x hx =>
        (hcomplete.2 x).mp (mem_flatten_of_mem hfound hx)
      refine ⟨root, ?_, fun x hx hne => ?_⟩
      · rw [heq, toSorted_evaluation_unscheduled horder.nodup hnone, hroot]
      · rw [if_neg hscheduled]
        exact Search.earlier_sublist (hvisited root hrootmem) (hvisited x ((hsame x).mp hx))
          (hfirst x ((hsame x).mp hx)) hne

lemma moduleComponents_eq (graph : ModuleGraph) (fuel : ℕ) :
    moduleComponents graph fuel =
      (graph.componentRoots.foldlM (strongConnect graph fuel)
        ⟨fun _ => none, fun _ => none, [], fun _ => false, [], 0, []⟩).bind fun s =>
      (moduleDepthFirstOrder graph fuel).map fun order =>
      (sortedComponents order s.found).zipIdx.map fun component =>
        moduleComponent graph component.2 component.1 := by
  simp only [Option.map_eq_bind]
  rfl

/-- `moduleDepthFirstOrder` lists what the entry leads to (every module, in a graph without
request records) in depth-first post-order, and `moduleComponents` has the strong components of
what the entry and the modules of the graph lead to. -/
theorem moduleComponents_strong (graph : ModuleGraph) :
    ∃ fuel₀ visited order visited' components,
      (∀ fuel, fuel₀ ≤ fuel → moduleDepthFirstOrder graph fuel = some order ∧
        moduleComponents graph fuel = some components) ∧
      PostOrder graph visited order ∧
      StrongComponents graph visited order visited' components := by
  obtain ⟨d, fuel₁, horder, hd⟩ := moduleDepthFirstOrder_visited graph
  obtain ⟨s', t', l', fuel₂, hconnect, h⟩ := componentRoots_connected graph
  refine ⟨fuel₁ + fuel₂, d.visited, d.order, t'.visited, _, fun fuel hfuel => ?_, hd.postOrder,
    h.strongComponents hd⟩
  have horder' := horder fuel (by omega)
  refine ⟨horder', ?_⟩
  rw [moduleComponents_eq, hconnect fuel (by omega), horder', Option.bind_some, Option.map_some,
    h.abstracts.found]


/-- An entry, and a module that only `import()` reaches. -/
def importReached : ModuleGraph := ⟨[1], [⟨[1], []⟩, ⟨[2], []⟩], true⟩

/-- A module that the entry does not lead to has its component. -/
theorem importReached_component :
    moduleComponents importReached 2 = some [⟨false, 0, [[1]]⟩, ⟨false, 1, [[2]]⟩] ∧
      ¬Leads importReached.dependencies importReached.entryId [2] := by
  constructor
  · have hfound : (importReached.componentRoots.foldlM (strongConnect importReached 2)
        ⟨fun _ => none, fun _ => none, [], fun _ => false, [], 0, []⟩).map (·.found) =
          some [[[1]], [[2]]] := by decide
    have horder : moduleDepthFirstOrder importReached 2 = some [[1]] := by decide
    have hsorted : sortedComponents [[1]] [[[1]], [[2]]] = [[[1]], [[2]]] := by
      unfold sortedComponents toSorted
      simp only [map_cons, map_nil, mergeSort_singleton]
      exact mergeSort_of_pairwise (by decide)
    obtain ⟨s, hs, heq⟩ := Option.map_eq_some_iff.mp hfound
    rw [moduleComponents_eq, hs, Option.bind_some, horder, Option.map_some, heq, hsorted]
    decide
  · intro hleads
    rcases Relation.ReflTransGen.cases_head hleads with heq | ⟨y, hy, -⟩
    · exact absurd heq (by decide)
    · have hnil : importReached.dependencies importReached.entryId = [] := by decide
      rw [hnil] at hy
      exact absurd hy not_mem_nil

end Oseo.ModuleOrdering
