import Oseo.Library.RepeatedSelection
import Oseo.PropertyStorage.ChangeTheorems

/-!
# For-in enumeration

`runtime_enumeration.c`: the keys of the whole prototype chain are listed and described when the
enumeration starts, and each step reports the next one of them that is still there.

* A level is a value of the chain: an object, or a string;
* a candidate of a Proxy is described when its turn comes (`found` is none until then);
* a Proxy takes part through its traps, which are code of the program: where one is called, the
  operation hands over to it.
-/

namespace Oseo.PropertyStorage

open Oseo.Library

/-- What the elements of TypedArrays answer: the canonical numeric strings, the number of index keys
of a view, and whether it has the element of a numeric key. -/
structure Elements where
  canonical : List ℕ → Bool
  indexCount : ℕ → ℕ
  hasIndex : ℕ → PropertyKey → Bool

/-! ## The keys of one level -/

/-- The array indices of the property vector, selected in ascending order. -/
def enumerationIndexKeys (object : OseoOrdinaryObject) : List PropertyKey :=
  (ascending (fun property => arrayIndex property.key) object.properties
    (object.properties.length + 1) none).map fun entry => entry.2.key

/-- The own property of an array or a function that is kept outside the vector. -/
def reservedKey (object : OseoOrdinaryObject) : Option PropertyKey :=
  if object.kind = .array then some lengthKey
  else if functionHasPrototypeProperty object then some prototypeKey
  else none

/-- The synthetic keys of a non-strict function that are still live. -/
def legacyKeys (object : OseoOrdinaryObject) : List PropertyKey :=
  if object.kind = .function then
    (if object.legacyArgumentsLive then [argumentsKey] else []) ++
      if object.legacyCallerLive then [callerKey] else []
  else []

/-- The other keys of the property vector, in its order. The exports of a module namespace keep
theirs. -/
def enumerationVectorKeys (object : OseoOrdinaryObject) : List PropertyKey :=
  (object.properties.map OseoProperty.key).filter fun key =>
    !key.isSymbol && (object.moduleNamespace || (arrayIndex key).isNone) &&
      reservedKey object ≠ some key

/-- `enumeration_keys`. -/
def enumerationKeys (elements : Elements) (h : Heap) : Value → Except Outcome (List PropertyKey)
  | .string units => .ok ((List.range units.length).map arrayIndexKey ++ [lengthKey])
  | .object o =>
    let object := h.object o
    if object.kind = .proxy then .error (.proxyTrap o)
    else
      let elementKeys := if object.kind = .typedArray then
          (List.range (elements.indexCount o)).map arrayIndexKey
        else []
      let indexKeys := if object.moduleNamespace then [] else enumerationIndexKeys object
      .ok (elementKeys ++ indexKeys ++ (reservedKey object).toList ++ legacyKeys object ++
        enumerationVectorKeys object)
  | _ => .ok []

/-! ## Own keys of a level -/

/-- `enumeration_own_key`: whether a property is there, and then whether it is enumerable. -/
def enumerationOwnKey (elements : Elements) (h : Heap) (level : Value) (key : PropertyKey) :
    Except Outcome (Option Bool) :=
  match level with
  | .string units =>
    if key = lengthKey then .ok (some false)
    else if (arrayIndex key).any (· < units.length) then .ok (some true)
    else .ok none
  | .object o =>
    if (h.object o).kind = .typedArray && typedArrayNumericKey elements.canonical key then
      .ok (if elements.hasIndex o key then some true else none)
    else if (h.object o).kind = .proxy then .error (.proxyTrap o)
    else match ownDescriptor h o key with
      | none => .ok none
      | some descriptor =>
        match namespaceExportReady h o descriptor.value with
        | .error outcome => .error outcome
        | .ok _ => .ok (some descriptor.attributes.enumerable)
  | _ => .ok none

/-- `enumeration_parent`: the next level of the chain. -/
def enumerationParent (h : Heap) : Value → Except Outcome Value
  | .object o => if (h.object o).kind = .proxy then .error (.proxyTrap o)
    else .ok (h.object o).prototype
  | _ => .ok .null

/-- The walk of `enumeration_reachable`. -/
def enumerationWalk (elements : Elements) (h : Heap) (key : PropertyKey) :
    (steps : ℕ) → Value → Option (Except Outcome Bool)
  | 0, _ => none
  | steps + 1, .object o =>
    match enumerationOwnKey elements h (.object o) key with
    | .error outcome => some (.error outcome)
    | .ok (some _) => some (.ok true)
    | .ok none =>
      match enumerationParent h (.object o) with
      | .error outcome => some (.error outcome)
      | .ok parent => enumerationWalk elements h key steps parent
  | _ + 1, _ => some (.ok false)

/-- `enumeration_reachable`. -/
def enumerationReachable (elements : Elements) (h : Heap) (steps : ℕ) (receiver : Value)
    (key : PropertyKey) : Option (Except Outcome Bool) :=
  match receiver with
  | .string units =>
    some ((enumerationOwnKey elements h (.string units) key).map Option.isSome)
  | receiver => enumerationWalk elements h key steps receiver

/-! ## Collection -/

/-- A key of the chain, with what its level said of it at the start. -/
structure Candidate where
  level : Value
  key : PropertyKey
  found : Option Bool
  enumerable : Bool
deriving DecidableEq

/-- `OseoEnumeration`, with the candidates that are left. -/
structure OseoEnumeration where
  receiver : Value
  candidates : List Candidate
  visited : List PropertyKey
deriving DecidableEq

/-- The first loop of `enumeration_collect`: the keys of each level, outward. -/
def collectKeys (elements : Elements) (h : Heap) :
    (steps : ℕ) → (level : Value) → Option (Except Outcome (List (Value × PropertyKey)))
  | 0, _ => none
  | steps + 1, level =>
    match level with
    | .object _ | .string _ =>
      match enumerationKeys elements h level with
      | .error outcome => some (.error outcome)
      | .ok keys =>
        match enumerationParent h level with
        | .error outcome => some (.error outcome)
        | .ok parent => (collectKeys elements h steps parent).map fun rest =>
          rest.map (keys.map (level, ·) ++ ·)
    | _ => some (.ok [])

/-- `is_proxy`. -/
def isProxy (h : Heap) : Value → Bool
  | .object o => (h.object o).kind = .proxy
  | _ => false

/-- The descriptor of a key, unless a trap of a Proxy is needed. -/
def describeCandidate (elements : Elements) (h : Heap) (level : Value) (key : PropertyKey) :
    Except Outcome Candidate :=
  if isProxy h level then .ok ⟨level, key, none, false⟩
  else (enumerationOwnKey elements h level key).map fun
    | none => ⟨level, key, some false, false⟩
    | some enumerable => ⟨level, key, some true, enumerable⟩

/-- The second loop of `enumeration_collect`. -/
def describeCandidates (elements : Elements) (h : Heap) :
    List (Value × PropertyKey) → Except Outcome (List Candidate)
  | [] => .ok []
  | (level, key) :: rest =>
    match describeCandidate elements h level key with
    | .error outcome => .error outcome
    | .ok candidate => (describeCandidates elements h rest).map (candidate :: ·)

/-- `enumeration_collect`. -/
def enumerationCollect (elements : Elements) (h : Heap) (steps : ℕ) (receiver : Value) :
    Option (Except Outcome (List Candidate)) :=
  (collectKeys elements h steps receiver).map fun keys =>
    match keys with
    | .error outcome => .error outcome
    | .ok keys => describeCandidates elements h keys

/-- `oseo_enumerate_get`, given what the subject is converted to. There is nothing to enumerate of
undefined and null. -/
def enumerateGet (elements : Elements) (h : Heap) (steps : ℕ) (subject : Value)
    (converted : Except Outcome Value) : Option (Except Outcome (Option OseoEnumeration)) :=
  if subject = .undefined ∨ subject = .null then some (.ok none)
  else match converted with
    | .error outcome => some (.error outcome)
    | .ok receiver => (enumerationCollect elements h steps receiver).map fun candidates =>
      candidates.map fun candidates => some ⟨receiver, candidates, []⟩

/-! ## Steps -/

/-- Whether a candidate is there, and enumerable: as it was at the start, or by a trap. -/
def Candidate.resolve (elements : Elements) (h : Heap) (candidate : Candidate) :
    Except Outcome (Option Bool) :=
  match candidate.found with
  | none => enumerationOwnKey elements h candidate.level candidate.key
  | some found => .ok (if found then some candidate.enumerable else none)

/-- The loop of `oseo_enumerate_next`: the key it reports, none at the end, and what is left. -/
def enumerateFrom (elements : Elements) (h : Heap) (steps : ℕ) (receiver : Value) :
    (candidates : List Candidate) → (visited : List PropertyKey) →
      Option (OseoEnumeration × Except Outcome (Option PropertyKey))
  | [], visited => some (⟨receiver, [], visited⟩, .ok none)
  | candidate :: rest, visited =>
    if visited.any (propertyKeyEqual · candidate.key) then
      enumerateFrom elements h steps receiver rest visited
    else match candidate.resolve elements h with
      | .error outcome => some (⟨receiver, rest, visited⟩, .error outcome)
      | .ok none =>
        -- A missing candidate of a Proxy is followed by a look at its prototype.
        match candidate.found, enumerationParent h candidate.level with
        | none, .error outcome => some (⟨receiver, rest, visited⟩, .error outcome)
        | _, _ => enumerateFrom elements h steps receiver rest visited
      | .ok (some enumerable) =>
        let visited := visited ++ [candidate.key]
        if !enumerable then enumerateFrom elements h steps receiver rest visited
        else match enumerationReachable elements h steps receiver candidate.key with
          | none => none
          | some (.error outcome) => some (⟨receiver, rest, visited⟩, .error outcome)
          | some (.ok false) => enumerateFrom elements h steps receiver rest visited
          | some (.ok true) => some (⟨receiver, rest, visited⟩, .ok (some candidate.key))

/-- `oseo_enumerate_next`. -/
def enumerateNext (elements : Elements) (h : Heap) (steps : ℕ) (enumeration : OseoEnumeration) :
    Option (OseoEnumeration × Except Outcome (Option PropertyKey)) :=
  enumerateFrom elements h steps enumeration.receiver enumeration.candidates enumeration.visited

/-- A for-in loop whose body does nothing to the objects: the keys it gets, in at most `rounds`
rounds. -/
def enumerateAll (elements : Elements) (h : Heap) (steps : ℕ) :
    (rounds : ℕ) → OseoEnumeration → Option (Except Outcome (List PropertyKey))
  | 0, _ => none
  | rounds + 1, enumeration =>
    match enumerateNext elements h steps enumeration with
    | none => none
    | some (_, .error outcome) => some (.error outcome)
    | some (_, .ok none) => some (.ok [])
    | some (enumeration, .ok (some key)) =>
      (enumerateAll elements h steps rounds enumeration).map fun rest => rest.map (key :: ·)

/-! ## Enumerations among the steps of a program -/

/-- What happens while a for-in loop runs: a step of the program, or of the enumeration. -/
inductive EnumerationEvent
  | program (operation : Operation)
  | next (result : Except Outcome (Option PropertyKey))

/-- A heap, and an enumeration under way. -/
structure Enumerating where
  heap : Heap
  enumeration : OseoEnumeration

/-- Steps of the program between the steps of an enumeration. -/
inductive EnumerationStep (canonical : List ℕ → Bool) :
    Enumerating → EnumerationEvent → Enumerating → Prop
  | program {h h' : Heap} {operation : Operation} (enumeration : OseoEnumeration)
      (step : Step canonical h operation h') :
    EnumerationStep canonical ⟨h, enumeration⟩ (.program operation) ⟨h', enumeration⟩
  | next {enumeration enumeration' : OseoEnumeration}
      {result : Except Outcome (Option PropertyKey)} (elements : Elements) (h : Heap) (steps : ℕ)
      (hnext : enumerateNext elements h steps enumeration = some (enumeration', result)) :
    EnumerationStep canonical ⟨h, enumeration⟩ (.next result) ⟨h, enumeration'⟩

/-- The name a step of the enumeration reports. -/
def EnumerationEvent.reported : EnumerationEvent → Option PropertyKey
  | .next (.ok key) => key
  | _ => none

/-- The names that are reported in a run. -/
def reportedKeys (events : List EnumerationEvent) : List PropertyKey :=
  events.filterMap EnumerationEvent.reported

/-! ## The candidates of an enumeration

`ownStringKeys` are the own string keys of an ordinary object or array in the order of
[[OwnPropertyKeys]]. The candidates of an enumeration are these keys level by level, each with its
own property at the start (`enumerationCollect_eq`).
-/

open List

variable {canonical : List ℕ → Bool} {elements : Elements} {h : Heap} {o : ℕ}
  {object : OseoOrdinaryObject} {key key' : PropertyKey} {levels : List ℕ} {steps : ℕ}

/-! ## Own keys -/

/-- The own string keys of an ordinary object or array: array indices in ascending order, then the
other strings in the order they were created. The `length` of an array is created with it. -/
def ownStringKeys (object : OseoOrdinaryObject) : List PropertyKey :=
  ((object.keys.filterMap arrayIndex).mergeSort (· ≤ ·)).map arrayIndexKey ++
    (if object.kind = .array then [lengthKey] else []) ++
      object.keys.filter fun key => !key.isSymbol && (arrayIndex key).isNone

lemma propertyKeyEqual_iff (hkey : key'.isSymbol = false) :
    propertyKeyEqual key key' = true ↔ key = key' := by
  cases key' with
  | symbol right => cases hkey
  | string right =>
    cases key with
    | symbol left => simp [propertyKeyEqual]
    | string left => simp [propertyKeyEqual]

lemma arrayIndex_lengthKey : arrayIndex lengthKey = none := by decide

/-- The indices of a vector are told apart by their numbers. -/
lemma WellStored.indices_nodup (hstored : WellStored canonical object) :
    (object.keys.filterMap arrayIndex).Nodup := by
  rw [Nodup, pairwise_filterMap]
  refine hstored.distinct.imp fun {x y} hdistinct i hi j hj heq => ?_
  rw [← heq] at hj
  rw [propertyKeyEqual_of_arrayIndex hi hj] at hdistinct
  cases hdistinct

/-- The selection lists the indices in ascending order. -/
lemma enumerationIndexKeys_eq (hstored : WellStored canonical object) :
    enumerationIndexKeys object =
      ((object.keys.filterMap arrayIndex).mergeSort (· ≤ ·)).map arrayIndexKey := by
  have hranks : object.properties.filterMap (fun property => arrayIndex property.key) =
      object.keys.filterMap arrayIndex := by
    unfold OseoOrdinaryObject.keys
    rw [filterMap_map]
    rfl
  have hsorted := @ascending_ranks _ (fun property => arrayIndex property.key) object.properties _
    (by rw [hranks]; exact hstored.indices_nodup) (Nat.lt_succ_self _)
  rw [hranks] at hsorted
  rw [← hsorted, map_map]
  apply map_congr_left
  rintro ⟨n, property⟩ hentry
  obtain ⟨-, hrank, -⟩ := ascending_entry hentry
  exact (arrayIndex_eq_some.mp hrank).2

/-- An ordinary object, or an array. -/
structure Heap.Ordinary (h : Heap) (o : ℕ) : Prop where
  kind : (h.object o).kind = .object ∨ (h.object o).kind = .array
  exports : (h.object o).moduleNamespace = false

lemma Heap.Ordinary.not_function (hordinary : h.Ordinary o) : (h.object o).kind ≠ .function := by
  rcases hordinary.kind with hkind | hkind
  · rw [hkind]
    nofun
  · rw [hkind]
    nofun

lemma Heap.Ordinary.not_proxy (hordinary : h.Ordinary o) : (h.object o).kind ≠ .proxy := by
  rcases hordinary.kind with hkind | hkind
  · rw [hkind]
    nofun
  · rw [hkind]
    nofun

lemma Heap.Ordinary.not_typedArray (hordinary : h.Ordinary o) :
    (h.object o).kind ≠ .typedArray := by
  rcases hordinary.kind with hkind | hkind
  · rw [hkind]
    nofun
  · rw [hkind]
    nofun

lemma functionHasPrototypeProperty_eq_false (hkind : object.kind ≠ .function) :
    functionHasPrototypeProperty object = false := by
  unfold functionHasPrototypeProperty
  rw [decide_eq_false hkind, Bool.false_and]

/-- The keys `enumeration_keys` lists are the own keys in their order. -/
lemma enumerationKeys_eq (hordinary : h.Ordinary o)
    (hstored : WellStored canonical (h.object o)) :
    enumerationKeys elements h (.object o) = .ok (ownStringKeys (h.object o)) := by
  have hreserved : (reservedKey (h.object o)).toList =
      if (h.object o).kind = .array then [lengthKey] else [] := by
    unfold reservedKey
    rw [functionHasPrototypeProperty_eq_false hordinary.not_function]
    split
    · rfl
    · rfl
  have hvector : enumerationVectorKeys (h.object o) = (h.object o).keys.filter fun key =>
      !key.isSymbol && (arrayIndex key).isNone := by
    apply filter_congr
    intro key hmem
    have hfree := hstored.free key hmem
    have hother : reservedKey (h.object o) ≠ some key := by
      intro heq
      unfold reservedKey at heq
      rw [functionHasPrototypeProperty_eq_false hordinary.not_function] at heq
      split at heq
      · next hkind =>
        cases heq
        unfold reserved at hfree
        rw [hkind] at hfree
        simp at hfree
      · cases heq
    rw [hordinary.exports, decide_eq_true hother, Bool.false_or, Bool.and_true]
  have hlegacy : legacyKeys (h.object o) = [] := if_neg hordinary.not_function
  unfold enumerationKeys ownStringKeys
  dsimp only
  rw [if_neg hordinary.not_proxy, if_neg hordinary.not_typedArray, hordinary.exports,
    if_neg Bool.false_ne_true, enumerationIndexKeys_eq hstored, hreserved, hlegacy, hvector,
    nil_append, append_nil]

/-- The indices among the own keys. -/
lemma mem_indices : key ∈ ((object.keys.filterMap arrayIndex).mergeSort (· ≤ ·)).map arrayIndexKey ↔
    key ∈ object.keys ∧ (arrayIndex key).isSome := by
  rw [mem_map]
  constructor
  · rintro ⟨n, hmem, rfl⟩
    rw [mem_mergeSort, mem_filterMap] at hmem
    obtain ⟨stored, hmem, hindex⟩ := hmem
    obtain ⟨-, rfl⟩ := arrayIndex_eq_some.mp hindex
    exact ⟨hmem, by rw [hindex]; rfl⟩
  · rintro ⟨hmem, hsome⟩
    obtain ⟨n, hindex⟩ := Option.isSome_iff_exists.mp hsome
    refine ⟨n, ?_, (arrayIndex_eq_some.mp hindex).2.symm⟩
    rw [mem_mergeSort, mem_filterMap]
    exact ⟨key, hmem, hindex⟩

lemma mem_ownStringKeys : key ∈ ownStringKeys object ↔ key.isSymbol = false ∧
    (key ∈ object.keys ∨ object.kind = .array ∧ key = lengthKey) := by
  have hlength : key ∈ (if object.kind = .array then [lengthKey] else []) ↔
      object.kind = .array ∧ key = lengthKey := by
    split
    · next hkind => simp [hkind]
    · next hkind => simp [hkind]
  have hsymbol : (arrayIndex key).isSome → key.isSymbol = false := by
    intro hsome
    obtain ⟨n, hindex⟩ := Option.isSome_iff_exists.mp hsome
    rw [(arrayIndex_eq_some.mp hindex).2]
    rfl
  unfold ownStringKeys
  rw [mem_append, mem_append, hlength, mem_indices, mem_filter, Bool.and_eq_true,
    Bool.not_eq_true', Option.isNone_iff_eq_none]
  constructor
  · rintro ((⟨hmem, hsome⟩ | ⟨hkind, rfl⟩) | ⟨hmem, hname, -⟩)
    · exact ⟨hsymbol hsome, .inl hmem⟩
    · exact ⟨rfl, .inr ⟨hkind, rfl⟩⟩
    · exact ⟨hname, .inl hmem⟩
  · rintro ⟨hname, hmem | harray⟩
    · cases hindex : arrayIndex key with
      | none => exact .inr ⟨hmem, hname, rfl⟩
      | some n => exact .inl (.inl ⟨hmem, rfl⟩)
    · exact .inl (.inr harray)

/-- No own key is listed twice. -/
lemma ownStringKeys_nodup (hstored : WellStored canonical object) :
    (ownStringKeys object).Nodup := by
  have hkeys : object.keys.Nodup := by
    refine hstored.distinct.imp fun {x y} hdistinct heq => ?_
    rw [heq, propertyKeyEqual_refl] at hdistinct
    cases hdistinct
  have hindices : (((object.keys.filterMap arrayIndex).mergeSort (· ≤ ·)).map
      arrayIndexKey).Nodup := by
    apply Nodup.map
    · intro i j heq
      exact decimalUnits_injective (PropertyKey.string.inj heq)
    · exact (mergeSort_perm _ _).nodup_iff.mpr hstored.indices_nodup
  unfold ownStringKeys
  rw [append_assoc]
  refine .append hindices (.append ?_ (hkeys.filter _) ?_) ?_
  · split
    · exact nodup_singleton _
    · exact nodup_nil
  · -- The vector of an array does not hold its length.
    intro key hmem hvector
    split at hmem
    · next hkind =>
      rw [mem_singleton.mp hmem] at hvector
      have hfree := hstored.free _ (mem_of_mem_filter hvector)
      unfold reserved at hfree
      rw [hkind] at hfree
      simp at hfree
    · cases hmem
  · intro key hmem hother
    have hsome := (mem_indices.mp hmem).2
    rcases mem_append.mp hother with hlength | hvector
    · split at hlength
      · rw [mem_singleton.mp hlength, arrayIndex_lengthKey] at hsome
        cases hsome
      · cases hlength
    · have hnone := (mem_filter.mp hvector).2
      rw [Bool.and_eq_true, Option.isNone_iff_eq_none] at hnone
      rw [hnone.2] at hsome
      cases hsome

/-! ## Own properties -/

/-- Whether an own property is there, and then whether it is enumerable. -/
def ownEnumerable (h : Heap) (o : ℕ) (key : PropertyKey) : Option Bool :=
  (ownDescriptor h o key).map fun descriptor => descriptor.attributes.enumerable

lemma enumerationOwnKey_eq (hordinary : h.Ordinary o) :
    enumerationOwnKey elements h (.object o) key = .ok (ownEnumerable h o key) := by
  have hready : ∀ stored, namespaceExportReady h o stored = .ok () := by
    intro stored
    unfold namespaceExportReady
    rw [hordinary.exports]
    rfl
  unfold enumerationOwnKey ownEnumerable
  dsimp only
  rw [decide_eq_false hordinary.not_typedArray, Bool.false_and, if_neg Bool.false_ne_true,
    if_neg hordinary.not_proxy]
  cases ownDescriptor h o key with
  | none => rfl
  | some descriptor =>
    dsimp only
    rw [hready]
    rfl

lemma WellStored.ownPropertyIndex_isSome (hstored : WellStored canonical object)
    (hname : key.isSymbol = false) : (ownPropertyIndex object key).isSome ↔ key ∈ object.keys := by
  constructor
  · intro hsome
    obtain ⟨slot, hslot⟩ := Option.isSome_iff_exists.mp hsome
    obtain ⟨property, hget, hequal⟩ := hstored.lookup_some hslot
    rw [propertyKeyEqual_iff hname] at hequal
    rw [← hequal]
    exact key_mem hget
  · intro hmem
    obtain ⟨property, hproperty, heq⟩ := mem_map.mp hmem
    obtain ⟨slot, hget⟩ := mem_iff_getElem?.mp hproperty
    rw [hstored.ownPropertyIndex_eq_scan, hstored.scan_of_get hget ((propertyKeyEqual_iff hname).mpr heq)]
    rfl

/-- A string is the name of an own property where it is listed. -/
lemma ownEnumerable_isSome (hordinary : h.Ordinary o)
    (hstored : WellStored canonical (h.object o)) (hname : key.isSymbol = false) :
    (ownEnumerable h o key).isSome ↔ key ∈ ownStringKeys (h.object o) := by
  have hlive : legacyLiveKey (h.object o) key = none := if_pos hordinary.not_function
  rw [mem_ownStringKeys, ← hstored.ownPropertyIndex_isSome hname]
  unfold ownEnumerable ownDescriptor
  dsimp only
  rw [hlive, functionHasPrototypeProperty_eq_false hordinary.not_function, Option.isSome_none,
    if_neg Bool.false_ne_true, Bool.false_and, if_neg Bool.false_ne_true, Option.isSome_map]
  by_cases harray : (h.object o).kind = .array ∧ key = lengthKey
  · rw [if_pos (by simpa using harray)]
    rw [harray.2]
    exact ⟨fun _ => ⟨rfl, .inr ⟨harray.1, rfl⟩⟩, fun _ => rfl⟩
  · rw [if_neg (by simpa using harray), Option.isSome_map]
    cases hslot : ownPropertyIndex (h.object o) key with
    | none => simp [harray]
    | some slot =>
      obtain ⟨property, hget, -⟩ := hstored.lookup_some hslot
      simp [hget, hname]

/-! ## Collection -/

/-- The objects of a prototype chain, from one on outward. -/
inductive Heap.Chain (h : Heap) : Value → List ℕ → Prop
  | finish : h.Chain .null []
  | level {o : ℕ} {levels : List ℕ} (rest : h.Chain (h.object o).prototype levels) :
    h.Chain (.object o) (o :: levels)

/-- What the runtime maintains of the levels of a chain, which are ordinary objects and arrays. -/
def Heap.OrdinaryLevels (canonical : List ℕ → Bool) (h : Heap) (levels : List ℕ) : Prop :=
  ∀ o ∈ levels, h.Ordinary o ∧ WellStored canonical (h.object o)

/-- The candidate of an own key. -/
def candidateOf (h : Heap) (o : ℕ) (key : PropertyKey) : Candidate :=
  ⟨.object o, key, some true, (ownEnumerable h o key).any id⟩

/-- The candidates of a level. -/
def levelCandidates (h : Heap) (o : ℕ) : List Candidate :=
  (ownStringKeys (h.object o)).map (candidateOf h o)

/-- The keys of a level, with the level. -/
def levelKeys (h : Heap) (o : ℕ) : List (Value × PropertyKey) :=
  (ownStringKeys (h.object o)).map (Value.object o, ·)

lemma enumerationParent_eq (hordinary : h.Ordinary o) :
    enumerationParent h (.object o) = .ok (h.object o).prototype :=
  if_neg hordinary.not_proxy

lemma collectKeys_eq {level : Value} (hchain : h.Chain level levels)
    (hlevels : h.OrdinaryLevels canonical levels) : collectKeys elements h steps level =
      if levels.length < steps then some (.ok (levels.flatMap (levelKeys h))) else none := by
  induction hchain generalizing steps with
  | finish =>
    cases steps with
    | zero => rfl
    | succ steps => rfl
  | @level o levels rest ih =>
    cases steps with
    | zero => rfl
    | succ steps =>
      obtain ⟨hordinary, hstored⟩ := hlevels o mem_cons_self
      have hrest := @ih steps fun o hmem => hlevels o (mem_cons_of_mem _ hmem)
      rw [collectKeys, enumerationKeys_eq hordinary hstored, enumerationParent_eq hordinary]
      dsimp only
      rw [hrest, length_cons]
      by_cases hlt : levels.length < steps
      · rw [if_pos hlt, if_pos (by omega)]
        rfl
      · rw [if_neg hlt, if_neg (by omega)]
        rfl

lemma describeCandidates_eq {pairs : List (Value × PropertyKey)}
    {candidate : Value × PropertyKey → Candidate}
    (hpairs : ∀ pair ∈ pairs, describeCandidate elements h pair.1 pair.2 = .ok (candidate pair)) :
    describeCandidates elements h pairs = .ok (pairs.map candidate) := by
  induction pairs with
  | nil => rfl
  | cons pair pairs ih =>
    rw [describeCandidates, hpairs pair mem_cons_self,
      ih fun pair hmem => hpairs pair (mem_cons_of_mem _ hmem)]
    rfl

lemma describeCandidate_eq (hordinary : h.Ordinary o)
    (hstored : WellStored canonical (h.object o)) (hkey : key ∈ ownStringKeys (h.object o)) :
    describeCandidate elements h (.object o) key = .ok (candidateOf h o key) := by
  have hname : key.isSymbol = false := (mem_ownStringKeys.mp hkey).1
  obtain ⟨enumerable, howned⟩ :=
    Option.isSome_iff_exists.mp ((ownEnumerable_isSome hordinary hstored hname).mpr hkey)
  have hproxy : isProxy h (.object o) = false := decide_eq_false hordinary.not_proxy
  unfold describeCandidate candidateOf
  rw [hproxy, if_neg Bool.false_ne_true, enumerationOwnKey_eq hordinary, howned]
  rfl

/-- The candidates are the own keys of the chain, level by level. -/
theorem enumerationCollect_eq {receiver : Value} (hchain : h.Chain receiver levels)
    (hlevels : h.OrdinaryLevels canonical levels) : enumerationCollect elements h steps receiver =
      if levels.length < steps then some (.ok (levels.flatMap (levelCandidates h))) else none := by
  have hcandidates : describeCandidates elements h (levels.flatMap (levelKeys h)) =
      .ok (levels.flatMap (levelCandidates h)) := by
    -- The level of a pair is an object of the chain.
    let candidate : Value × PropertyKey → Candidate := fun pair =>
      match pair.1 with
      | .object o => candidateOf h o pair.2
      | level => ⟨level, pair.2, none, false⟩
    have hmap : levels.flatMap (levelCandidates h) =
        (levels.flatMap (levelKeys h)).map candidate := by
      rw [map_flatMap]
      apply flatMap_congr
      intro o _
      unfold levelCandidates levelKeys
      rw [map_map]
      rfl
    rw [hmap]
    apply describeCandidates_eq
    intro pair hmem
    obtain ⟨o, ho, hpair⟩ := mem_flatMap.mp hmem
    obtain ⟨key, hkey, rfl⟩ := mem_map.mp hpair
    obtain ⟨hordinary, hstored⟩ := hlevels o ho
    exact describeCandidate_eq hordinary hstored hkey
  unfold enumerationCollect
  rw [collectKeys_eq hchain hlevels]
  by_cases hlt : levels.length < steps
  · rw [if_pos hlt, if_pos hlt, Option.map_some]
    dsimp only
    rw [hcandidates]
  · rw [if_neg hlt, if_neg hlt]
    rfl

end Oseo.PropertyStorage
