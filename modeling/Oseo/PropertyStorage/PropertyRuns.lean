import Oseo.PropertyStorage.AccessOperations
import Oseo.PropertyStorage.ArrayLengthTheorems

/-!
# Properties and array lengths over runs

Properties of every run of a program on its objects.

* `propertyRun_findable`: the lookup of an own property finds what a plain scan finds, and the
  dense run holds exactly the array indices;
* `propertyCache_loads`: a property cache that matches an object loads what [[Get]] returns.
-/

namespace Oseo.PropertyStorage

open Oseo.Library

section

variable {canonical : List ℕ → Bool} {h h' : Heap} {o : ℕ} {object : OseoOrdinaryObject}
  {key key' : PropertyKey} {property : OseoProperty} {operations later : List Operation}
  {cache : OseoPropertyCache}

/-! ## Lookups -/

/-- What the lookup of an own property relies on, and what it returns. -/
structure OseoOrdinaryObject.Findable (object : OseoOrdinaryObject) : Prop where
  indices : object.denseIndexKnown = true → ∀ i,
    (∃ property ∈ object.properties, arrayIndex property.key = some i) ↔
      i < object.denseIndexCount
  slots : object.denseIndexKnown = true → ∀ i < object.denseIndexCount,
    ∃ property, object.properties[object.denseIndexBase + i]? = some property ∧
      arrayIndex property.key = some i
  below : object.kind = .array → ∀ property ∈ object.properties, ∀ i,
    arrayIndex property.key = some i → i < object.arrayLength
  lookup : ∀ key, ownPropertyIndex object key = scanProperties object key

theorem WellStored.findable (hstored : WellStored canonical object) : object.Findable := by
  have hslots : object.denseIndexKnown = true → ∀ i < object.denseIndexCount,
      ∃ property, object.properties[object.denseIndexBase + i]? = some property ∧
        arrayIndex property.key = some i := by
    intro hknown i hlt
    obtain ⟨stored, hget, hindex⟩ := (hstored.run hknown).get hlt
    rw [getElem?_keys, Option.map_eq_some_iff] at hget
    obtain ⟨property, hget, rfl⟩ := hget
    exact ⟨property, hget, hindex⟩
  refine ⟨fun hknown i => ⟨?_, ?_⟩, hslots, ?_, hstored.ownPropertyIndex_eq_scan⟩
  · rintro ⟨property, hmem, hindex⟩
    obtain ⟨slot, hslot⟩ := List.mem_iff_getElem?.mp hmem
    have hkey : object.keys[slot]? = some property.key := by
      rw [getElem?_keys, hslot, Option.map_some]
    exact (((hstored.run hknown).index_of_get hkey).mp hindex).1
  · intro hlt
    obtain ⟨property, hget, hindex⟩ := hslots hknown i hlt
    exact ⟨property, List.mem_of_getElem? hget, hindex⟩
  · exact fun hkind property hmem i hindex =>
      hstored.below hkind property.key (List.mem_map_of_mem hmem) i hindex

/-! ## Shape identifiers -/

/-- All vectors are well stored, and no two objects share a shape identifier. -/
structure Heap.Shapes (canonical : List ℕ → Bool) (h : Heap) : Prop where
  stored : ∀ o, WellStored canonical (h.object o)
  bounded : ∀ o, (h.object o).shapeId < h.nextShapeId
  unique : ∀ o o', (h.object o).shapeId = (h.object o').shapeId →
    (h.object o).shapeId ≠ 0 → o = o'

lemma Heap.empty_shapes : Heap.empty.Shapes canonical where
  stored _ := by
    refine ⟨List.Pairwise.nil, fun _ => .nil, ?_, Nat.zero_le _, ?_, ?_⟩
    · exact fun _ _ hmem => absurd hmem List.not_mem_nil
    · exact fun _ hmem => absurd hmem List.not_mem_nil
    · intro hkind
      cases hkind
  bounded _ := Nat.zero_lt_one
  unique _ _ _ hne := absurd rfl hne

theorem Heap.Shapes.step {operation : Operation} (hshapes : h.Shapes canonical)
    (hstep : Step canonical h operation h') : h'.Shapes canonical := by
  obtain ⟨o, hchange⟩ := hstep.changes
  have hnext := hchange.next
  refine ⟨fun x => ?_, fun x => ?_, fun x y heq hne => ?_⟩
  · by_cases hx : x = o
    · rw [hx]
      exact hchange.stored (hshapes.stored o)
    · rw [hchange.others x hx]
      exact hshapes.stored x
  · by_cases hx : x = o
    · have := hshapes.bounded o
      rw [hx]
      rcases hchange.shape with hsame | hfresh <;> omega
    · have := hshapes.bounded x
      rw [hchange.others x hx]
      omega
  · -- A new shape identifier is no old one.
    by_cases hx : x = o
    · by_cases hy : y = o
      · rw [hx, hy]
      · rw [hchange.others y hy] at heq
        have hbound := hshapes.bounded y
        rw [hx] at heq hne ⊢
        rcases hchange.shape with hsame | hfresh
        · rw [hsame] at heq hne
          exact hshapes.unique o y heq hne
        · omega
    · rw [hchange.others x hx] at heq hne
      by_cases hy : y = o
      · rw [hy] at heq ⊢
        have hbound := hshapes.bounded x
        rcases hchange.shape with hsame | hfresh
        · rw [hsame] at heq
          exact hshapes.unique x o heq hne
        · omega
      · rw [hchange.others y hy] at heq
        exact hshapes.unique x y heq hne

theorem Heap.Shapes.run (hshapes : h.Shapes canonical)
    (hrun : Steps (Step canonical) h operations h') : h'.Shapes canonical :=
  @Steps.invariant _ _ _ _ _ _ (fun _ h => h.Shapes canonical) [] hrun hshapes
    fun _ _ _ _ hkept hstep => hkept.step hstep

/-- In every run, the lookup of an own property finds what a plain scan of the vector finds. -/
theorem propertyRun_findable (run : Steps (Step canonical) Heap.empty operations h) (o : ℕ) :
    (h.object o).Findable :=
  ((Heap.empty_shapes.run run).stored o).findable

/-- A run that appends an element to a new array. -/
theorem propertyRun_findable_append :
    let array := Heap.empty.create (newArray .null 0)
    let memory : Memory := ⟨fun _ => .ok 0, true, .ok (), .ok .undefined⟩
    ((arrayAppend array 0 .undefined memory).1.object 0).Findable :=
  @propertyRun_findable (fun _ => false) _ _
    ((Steps.single (.arrayCreate .empty .null 0 (by decide))).snoc
      (.append _ 0 ⟨.undefined, rfl⟩ ⟨fun _ => .ok 0, true, .ok (), .ok .undefined⟩)) 0

/-- In every run, no two objects share a shape identifier and every vector is well stored: no key
stands twice or names what is kept elsewhere, and the indices of an array are below its length. -/
theorem propertyRun_shapes (run : Steps (Step canonical) Heap.empty operations h) :
    h.Shapes canonical :=
  Heap.empty_shapes.run run

theorem propertyRun_shapes_append :
    let array := Heap.empty.create (newArray .null 0)
    let memory : Memory := ⟨fun _ => .ok 0, true, .ok (), .ok .undefined⟩
    (arrayAppend array 0 .undefined memory).1.Shapes fun _ => false :=
  @propertyRun_shapes (fun _ => false) _ _
    ((Steps.single (.arrayCreate .empty .null 0 (by decide))).snoc
      (.append _ 0 ⟨.undefined, rfl⟩ ⟨fun _ => .ok 0, true, .ok (), .ok .undefined⟩))

/-! ## Property caches -/

/-- What a filled cache says about the objects of its shape: its slot holds the key, as a plain
data property. -/
structure CacheHolds (h : Heap) (cache : OseoPropertyCache) (key : PropertyKey) : Prop where
  bounded : cache.shapeId < h.nextShapeId
  slot : cache.shapeId ≠ 0 → ∀ o, (h.object o).shapeId = cache.shapeId →
    (h.object o).dictionary = false → ∀ property,
      (h.object o).properties[cache.slot]? = some property →
      propertyKeyEqual property.key key = true ∧ property.attributes.accessor = false ∧
        cellBackedProperty (h.object o) property.value = false

lemma cacheHolds_empty (hshapes : h.Shapes canonical) : CacheHolds h ⟨0, 0⟩ key where
  bounded := by
    have := hshapes.bounded 0
    show 0 < h.nextShapeId
    omega
  slot hne := absurd rfl hne

lemma propertyCacheUpdate_holds (hshapes : h.Shapes canonical) (value : Value)
    (key : PropertyKey) : CacheHolds h (propertyCacheUpdate h value key) key := by
  unfold propertyCacheUpdate
  split
  · next o =>
    dsimp only
    split
    · exact cacheHolds_empty hshapes
    · next slot hslot =>
      split
      · exact cacheHolds_empty hshapes
      · next property hget =>
        split
        · next hplain =>
          simp only [Bool.and_eq_true, Bool.not_eq_true'] at hplain
          refine ⟨hshapes.bounded o, fun hne x hshape _ property' hget' => ?_⟩
          -- The object of this shape is the one the cache was filled from.
          obtain rfl := hshapes.unique x o hshape (hshape ▸ hne)
          obtain rfl : property = property' := Option.some.inj (hget.symm.trans hget')
          obtain ⟨other, hother, hequal⟩ := (hshapes.stored x).lookup_some hslot
          obtain rfl : property = other := Option.some.inj (hget.symm.trans hother)
          exact ⟨hequal, hplain.1.2, hplain.2⟩
        · exact cacheHolds_empty hshapes
  · exact cacheHolds_empty hshapes

/-- A change that keeps the shape identifier keeps what the cache says. -/
theorem CacheHolds.step {operation : Operation} (hcache : CacheHolds h cache key)
    (hstep : Step canonical h operation h') : CacheHolds h' cache key := by
  obtain ⟨o, hchange⟩ := hstep.changes
  have hbounded := hcache.bounded
  refine ⟨Nat.lt_of_lt_of_le hbounded hchange.next, fun hne x hshape hdictionary property hget => ?_⟩
  by_cases hx : x = o
  · subst hx
    have hold : (h.object x).dictionary = false := by
      rw [Bool.eq_false_iff]
      intro hdict
      rcases hchange.dictionary hdict with hkept | hfresh
      · rw [hdictionary] at hkept
        cases hkept
      · omega
    rcases hchange.layout with hdict | hfresh | hsame
    · rw [hdictionary] at hdict
      cases hdict
    · omega
    · obtain ⟨property', hget', hkey, haccessor, hcell⟩ := hsame.slots _ property hget
      rw [hkey, haccessor, hcell]
      exact hcache.slot hne x (hsame.shape.symm.trans hshape) hold property' hget'
  · rw [hchange.others x hx] at hshape hdictionary hget ⊢
    exact hcache.slot hne x hshape hdictionary property hget

theorem CacheHolds.run (hcache : CacheHolds h cache key)
    (hrun : Steps (Step canonical) h operations h') : CacheHolds h' cache key :=
  @Steps.invariant _ _ _ _ _ _ (fun _ h => CacheHolds h cache key) [] hrun hcache
    fun _ _ _ _ hkept hstep => hkept.step hstep

lemma reserved_congr (hequal : propertyKeyEqual key key' = true) :
    reserved canonical object key = reserved canonical object key' := by
  cases key' with
  | string units => rw [propertyKeyEqual_string.mp hequal]
  | symbol symbol =>
    cases key with
    | string units => simp [propertyKeyEqual] at hequal
    | symbol symbol' => rw [reserved_symbol, reserved_symbol]

/-- [[Get]] of a plain data property in the vector. -/
lemma objectGet_slot (hstored : WellStored canonical (h.object o))
    (hdictionary : (h.object o).dictionary = false) {slot : ℕ}
    (hget : (h.object o).properties[slot]? = some property)
    (hequal : propertyKeyEqual property.key key = true)
    (haccessor : property.attributes.accessor = false)
    (hplain : cellBackedProperty (h.object o) property.value = false) (steps : ℕ) :
    objectGet canonical h (steps + 1) o key = some (.normal property.value) := by
  have hfree : reserved canonical (h.object o) key = false := by
    rw [← reserved_congr hequal]
    exact hstored.free property.key (key_mem hget)
  simp only [reserved, Bool.or_eq_false_iff] at hfree
  obtain ⟨⟨⟨hlength, hprototype⟩, hlegacy⟩, hnumeric⟩ := hfree
  rw [Option.isSome_eq_false_iff, Option.isNone_iff_eq_none] at hlegacy
  have hproxy : (h.object o).kind ≠ .proxy := by
    intro hkind
    rw [hstored.proxy hkind] at hdictionary
    cases hdictionary
  have hindex : ownPropertyIndex (h.object o) key = some slot := by
    rw [hstored.ownPropertyIndex_eq_scan]
    exact hstored.scan_of_get hget hequal
  have hdescriptor : ownPropertyDescriptor h o key =
      some (.data property.value property.attributes) := by
    unfold ownPropertyDescriptor legacyDescriptor ownDescriptor
    simp [hlegacy, hprototype, hlength, hindex, hget, haccessor]
  unfold objectGet
  rw [objectGetFrom, if_neg hproxy, if_neg (by rw [hnumeric]; simp), hdescriptor]
  unfold getDescriptor
  simp [Descriptor.data, haccessor, hplain, hlegacy]

/-- In every run, a property cache that matches an object loads what [[Get]] of its key returns,
and it loads it from a slot that holds neither an accessor nor the view of a binding. -/
theorem propertyCache_loads {h₁ h₂ : Heap} {filled value : Value}
    (run : Steps (Step canonical) Heap.empty operations h₁)
    (run' : Steps (Step canonical) h₁ later h₂)
    (hmatch : propertyCacheMatches h₂ value (propertyCacheUpdate h₁ filled key) = true) :
    ∃ o property, value = .object o ∧
      (h₂.object o).properties[(propertyCacheUpdate h₁ filled key).slot]? = some property ∧
      property.attributes.accessor = false ∧
      cellBackedProperty (h₂.object o) property.value = false ∧
      ∀ steps, objectGet canonical h₂ (steps + 1) o key =
        some (.normal (propertyCacheLoad h₂ value (propertyCacheUpdate h₁ filled key))) := by
  have hshapes₁ := Heap.empty_shapes.run run
  have hshapes₂ := hshapes₁.run run'
  have hcache := (propertyCacheUpdate_holds hshapes₁ filled key).run run'
  unfold propertyCacheMatches at hmatch
  split at hmatch
  · next o =>
    simp only [Bool.and_eq_true, Bool.not_eq_true', decide_eq_true_eq] at hmatch
    obtain ⟨⟨⟨hdictionary, hne⟩, hshape⟩, hlt⟩ := hmatch
    have hget := List.getElem?_eq_getElem hlt
    obtain ⟨hequal, haccessor, hplain⟩ := hcache.slot hne o hshape.symm hdictionary _ hget
    refine ⟨o, _, rfl, hget, haccessor, hplain, fun steps => ?_⟩
    rw [objectGet_slot (hshapes₂.stored o) hdictionary hget hequal haccessor hplain]
    unfold propertyCacheLoad
    simp only [hget]
  · cases hmatch

/-- A cache filled from the element of a new array, and read at once. -/
theorem propertyCache_loads_append :
    let array := Heap.empty.create (newArray .null 0)
    let memory : Memory := ⟨fun _ => .ok 0, true, .ok (), .ok .undefined⟩
    let filled := (arrayAppend array 0 .undefined memory).1
    let cache := propertyCacheUpdate filled (.object 0) (.string [48])
    propertyCacheMatches filled (.object 0) cache = true ∧
      ∃ o property, Value.object 0 = .object o ∧
        (filled.object o).properties[cache.slot]? = some property ∧
        property.attributes.accessor = false ∧
        cellBackedProperty (filled.object o) property.value = false ∧
        ∀ steps, objectGet (fun _ => false) filled (steps + 1) o (.string [48]) =
          some (.normal (propertyCacheLoad filled (.object 0) cache)) :=
  ⟨by decide,
    @propertyCache_loads (fun _ => false) _ _ [] _ _ _ _
      ((Steps.single (.arrayCreate Heap.empty .null 0 (by decide))).snoc
        (.append _ 0 ⟨.undefined, rfl⟩ ⟨fun _ => .ok 0, true, .ok (), .ok .undefined⟩))
      .nil (by decide)⟩

end

/-! ## Assignments and definitions of an array length over runs

The kind of an object is written when it is created, and never again. So in every run, whatever
code the conversions of the value run:

* a definition of the `length` of an array does what ECMA-262's ArraySetLength does;
* so does an assignment, but for one case: strict code gets a `TypeError` where the conversions
  make the length read-only and return the value it has.
-/

section

variable {canonical : List ℕ → Bool} {h h' h'' : Heap} {o : ℕ}
  {object object' : OseoOrdinaryObject} {key : PropertyKey} {slot index requested rounds : ℕ}
  {memory : Memory} {outcome : Outcome} {operations : List Operation}

/-- A step creates an object, or writes no kind. -/
lemma Step.kinds {operation : Operation} (hstep : Step canonical h operation h') :
    SameKinds h h' ∨ ∃ object, h' = h.create object := by
  rcases hstep.alters with ⟨o, halters⟩ | ⟨object, hcreate, -⟩
  · exact .inl halters.sameKinds
  · exact .inr ⟨object, hcreate⟩

lemma create_of_ne {object : OseoOrdinaryObject} (hne : o ≠ h.nextObject) :
    (h.create object).object o = h.object o :=
  Function.update_of_ne hne ..

/-- No array is there that has not been created. -/
def Heap.Created (h : Heap) : Prop := ∀ o, (h.object o).kind = .array → o < h.nextObject

theorem Heap.Created.run (hrun : Steps (Step canonical) Heap.empty operations h) : h.Created := by
  refine @Steps.invariant _ _ _ _ _ _ (fun _ h => h.Created) [] hrun ?_ ?_
  · intro o hkind
    cases hkind
  · intro _ h _ h' hcreated hstep
    rcases hstep.kinds with hsame | ⟨object, rfl⟩
    · intro o hkind
      rw [hsame.kinds o] at hkind
      rw [hsame.next]
      exact hcreated o hkind
    · intro o hkind
      show o < h.nextObject + 1
      by_cases hnew : o = h.nextObject
      · omega
      · rw [create_of_ne hnew] at hkind
        have := hcreated o hkind
        omega

/-- An array stays an array. -/
lemma kind_array_run (hkind : (h.object o).kind = .array) (hcreated : h.Created)
    (hrun : Steps (Step canonical) h operations h') : (h'.object o).kind = .array := by
  have hkept := @Steps.invariant _ _ _ _ _ _
    (fun _ h' => (h'.object o).kind = .array ∧ o < h'.nextObject) [] hrun
    ⟨hkind, hcreated o hkind⟩ (by
      rintro _ h _ h' ⟨hkind, hlt⟩ hstep
      rcases hstep.kinds with hsame | ⟨object, rfl⟩
      · rw [hsame.kinds o, hsame.next]
        exact ⟨hkind, hlt⟩
      · rw [create_of_ne (Nat.ne_of_lt hlt)]
        exact ⟨hkind, Nat.lt_succ_of_lt hlt⟩)
  exact hkept.1

end

/-! ## Lengths -/

variable {canonical : List ℕ → Bool} {h h' : Heap} {o : ℕ} {first second : Conversion}
  {operations : List Operation}

/-- The code of the program that a conversion calls takes steps of the program. -/
def Conversion.Runs (canonical : List ℕ → Bool) (conversion : Conversion) : Prop :=
  ∀ h, ∃ operations, Steps (Step canonical) h operations (conversion h).1

/-- The conversions make the length read-only, and return the value that it then has. -/
def FreezesAtValue (first second : Conversion) (h : Heap) (o : ℕ) : Prop :=
  (h.object o).lengthWritable = true ∧ ∃ h₁ uint32 h₂ number,
    first h = (h₁, .ok uint32) ∧ second h₁ = (h₂, .ok number) ∧
      (h₂.object o).lengthWritable = false ∧
      uint32Of uint32 = (h₂.object o).arrayLength ∧
      equalNumbers (.ofInt (h₂.object o).arrayLength) number = true

/-! ## After the conversions -/

lemma toArrayLength_run (hfirst : first.Runs canonical) (hsecond : second.Runs canonical)
    (h : Heap) :
    ∃ operations, Steps (Step canonical) h operations (toArrayLength first second h).1 := by
  obtain ⟨operations, hrun⟩ := hfirst h
  unfold toArrayLength
  split
  · next heq =>
    rw [heq] at hrun
    exact ⟨operations, hrun⟩
  · next h₁ _ heq =>
    rw [heq] at hrun
    obtain ⟨operations', hrun'⟩ := hsecond h₁
    split
    · next heq' =>
      rw [heq'] at hrun'
      exact ⟨_, hrun.trans hrun'⟩
    · next heq' =>
      rw [heq'] at hrun'
      exact ⟨_, hrun.trans hrun'⟩

lemma freezesAtValue_iff :
    FreezesAtValue first second h o ↔ (h.object o).lengthWritable = true ∧
      ∃ h₂ requested, toArrayLength first second h = (h₂, .ok requested) ∧
        (h₂.object o).lengthWritable = false ∧
        (requested : ℕ) = (h₂.object o).arrayLength := by
  refine and_congr_right fun _ => ⟨?_, ?_⟩
  · rintro ⟨h₁, uint32, h₂, number, hfirst, hsecond, hreadOnly, hlength, hequal⟩
    have hvalue : ((uint32Length uint32).val : ℤ) = (h₂.object o).arrayLength :=
      (uint32Length_eq uint32).trans hlength
    refine ⟨h₂, uint32Length uint32, ?_, hreadOnly, by exact_mod_cast hvalue⟩
    unfold toArrayLength
    rw [hfirst]
    dsimp only
    rw [hsecond]
    dsimp only
    rw [hvalue, if_pos hequal]
  · rintro ⟨h₂, requested, hconverted, hreadOnly, hlength⟩
    unfold toArrayLength at hconverted
    split at hconverted
    · cases hconverted
    · next h₁ uint32 hfirst =>
      dsimp only at hconverted
      split at hconverted
      · cases hconverted
      · next h₃ number hsecond =>
        split at hconverted
        · next hequal =>
          cases hconverted
          refine ⟨h₁, uint32, h₂, number, hfirst, hsecond, hreadOnly, ?_, ?_⟩
          · rw [← uint32Length_eq, hlength]
          · rw [← hlength]
            exact hequal
        · cases hconverted

/-! ## Writes after the conversions -/

lemma setArrayLengthConverted_cell (h : Heap) (o : ℕ) (value : Value) (requested : ℕ)
    (strict allowSameValue : Bool) :
    (setArrayLengthConverted h o value requested strict allowSameValue).1.cell = h.cell := by
  unfold setArrayLengthConverted
  dsimp only
  repeat' split
  all_goals rfl

lemma defineArrayLength_cell (h : Heap) (o : ℕ) (value : Value)
    (attributes : OseoPropertyAttributes) (hasValue absentWritable : Bool)
    (converted : Except Outcome (Fin (2 ^ 32))) :
    (defineArrayLength h o value attributes hasValue absentWritable converted).1.cell =
      h.cell := by
  have hcell := fun requested => setArrayLengthConverted_cell h o value requested false true
  unfold defineArrayLength
  dsimp only
  split
  · rfl
  · generalize (if absentWritable then (h.object o).lengthWritable else attributes.writable) =
      writable
    repeat' split
    all_goals first | rfl | exact hcell _

/-! ## Definitions -/

lemma ownPropertyDescriptor_length (hkind : (h.object o).kind = .array) :
    (ownPropertyDescriptor h o lengthKey).map Descriptor.attributes =
      some ⟨false, false, (h.object o).lengthWritable, false⟩ := by
  simp [ownPropertyDescriptor, legacyDescriptor, legacyLiveKey, ownDescriptor,
    functionHasPrototypeProperty, hkind, Descriptor.data]

/-- The fields a descriptor leaves out are those of the property. -/
lemma assertedBy_current (descriptor : LengthDescriptor) (writable : Bool) :
    AssertedBy ⟨descriptor.configurable.getD false, descriptor.enumerable.getD false,
      descriptor.writable.getD writable, false⟩ descriptor where
  configurable := by rcases descriptor.configurable with _ | _ | _ <;> rfl
  enumerable := by rcases descriptor.enumerable with _ | _ | _ <;> rfl
  writable given hgiven := by
    show descriptor.writable.getD writable = given
    rw [hgiven]
    rfl

/-- The caller of a definition asserts the fields of the descriptor. -/
lemma defineLength_eq (hkind : (h.object o).kind = .array) (first second : Conversion)
    (value : Value) (descriptor : LengthDescriptor) :
    ∃ attributes, AssertedBy attributes descriptor ∧
      defineLength first second h o value descriptor =
        if descriptor.hasValue then
          defineArrayLength (toArrayLength first second h).1 o value attributes true
            descriptor.writable.isNone (toArrayLength first second h).2
        else defineArrayLength h o value attributes false descriptor.writable.isNone (.ok 0) := by
  refine ⟨_, assertedBy_current descriptor (h.object o).lengthWritable, ?_⟩
  unfold defineLength
  rw [ownPropertyDescriptor_length hkind]
  rfl

/-- ArraySetLength of a value, with the conversions of the runtime. -/
lemma arraySetLength_eq {descriptor : LengthDescriptor} (hvalue : descriptor.hasValue = true)
    (first second : Conversion) (h : Heap) (o : ℕ) :
    arraySetLength first second h o descriptor =
      match toArrayLength first second h with
      | (h, .error outcome) => (h, arrayState (h.object o), .error outcome)
      | (h, .ok requested) =>
        (h, ((arrayState (h.object o)).setLength requested descriptor).1,
          .ok ((arrayState (h.object o)).setLength requested descriptor).2) := by
  unfold arraySetLength
  rw [hvalue, if_pos rfl, convertLength_eq]
  rcases toArrayLength first second h with ⟨h', outcome | requested⟩
  · rfl
  · rfl

/-- A write conforms where its heap and its outcome are told. -/
lemma LengthRequest.conforms_of {request : LengthRequest} {value : Value} {written : Heap × Outcome}
    {array : ArrayState} {completion : Except Outcome Bool}
    (hperform : request.perform first second h o value = written)
    (hprescribed : request.prescribed first second h o = (h', array, completion))
    (hothers : ∀ o', o' ≠ o → written.1.object o' = h'.object o') (hcell : written.1.cell = h'.cell)
    (harray : arrayState (written.1.object o) = array)
    (hreports : request.Reports o value completion written.2) :
    request.Conforms first second h o value := by
  constructor
  · rw [hperform, hprescribed]
    exact harray
  · rw [hperform, hprescribed]
    exact hothers
  · rw [hperform, hprescribed]
    exact hcell
  · rw [hperform, hprescribed]
    exact hreports

lemma definition_conforms (hkind : (h.object o).kind = .array)
    (hstored : WellStored canonical ((toArrayLength first second h).1.object o))
    (hkind' : ((toArrayLength first second h).1.object o).kind = .array) (value : Value)
    (descriptor : LengthDescriptor) :
    (LengthRequest.definition descriptor).Conforms first second h o value := by
  obtain ⟨attributes, hasserted, hperform⟩ := defineLength_eq hkind first second value descriptor
  have hprescribed : (LengthRequest.definition descriptor).prescribed first second h o =
      arraySetLength first second h o descriptor := rfl
  cases hvalue : descriptor.hasValue with
  | false =>
    unfold arraySetLength at hprescribed
    rw [hvalue, if_neg Bool.false_ne_true] at hperform hprescribed
    have hwritten := defineArrayLength_noValue h o value hasserted (.ok 0)
    have hchange := @defineArrayLength_changes canonical h o value attributes false
      descriptor.writable.isNone (.ok 0)
    have hcell := defineArrayLength_cell h o value attributes false descriptor.writable.isNone
      (.ok 0)
    split at hprescribed
    · next hdefine =>
      rw [hdefine] at hwritten
      exact LengthRequest.conforms_of hperform hprescribed hchange.others hcell hwritten.1 hwritten.2
    · next hdefine =>
      rw [hdefine] at hwritten
      exact LengthRequest.conforms_of hperform hprescribed hchange.others hcell hwritten.1 hwritten.2
  | true =>
    rw [hvalue, if_pos rfl] at hperform
    rw [arraySetLength_eq hvalue] at hprescribed
    generalize toArrayLength first second h = after at *
    obtain ⟨h', outcome | requested⟩ := after
    · exact LengthRequest.conforms_of hperform hprescribed (fun _ _ => rfl) rfl rfl rfl
    · obtain ⟨harray, hreport⟩ := defineArrayLength_eq hstored hkind' value hasserted requested
      refine LengthRequest.conforms_of hperform hprescribed ?_ ?_ harray ?_
      · exact (@defineArrayLength_changes canonical _ o value attributes true _ _).others
      · exact defineArrayLength_cell ..
      · split at hreport
        · next hsucceeded =>
          rw [hsucceeded]
          exact hreport
        · next hfailed =>
          rw [Bool.not_eq_true _ |>.mp hfailed]
          exact hreport

/-! ## Assignments -/

/-- The runtime reports that it wrote the length exactly where it may, but for a value that the
length has in strict code. -/
lemma assignment_reports_iff {value : Value} {array : OseoOrdinaryObject}
    {strict succeeded : Bool} :
    (LengthRequest.assignment strict).Reports o value (.ok succeeded)
        (lengthOutcome array value strict (succeeded && (array.lengthWritable || false))) ↔
      ¬(strict = true ∧ succeeded = true ∧ array.lengthWritable = false) := by
  unfold lengthOutcome
  cases strict <;> cases succeeded <;> cases array.lengthWritable <;>
    simp [LengthRequest.Reports]

lemma assignment_conforms_iff
    (hstored : WellStored canonical ((toArrayLength first second h).1.object o))
    (hkind' : ((toArrayLength first second h).1.object o).kind = .array) (value : Value)
    (strict : Bool) :
    (LengthRequest.assignment strict).Conforms first second h o value ↔
      ¬(strict = true ∧ FreezesAtValue first second h o) := by
  have hperform : (LengthRequest.assignment strict).perform first second h o value =
      assignLength first second h o value strict := rfl
  have hprescribed : (LengthRequest.assignment strict).prescribed first second h o =
      if !(h.object o).lengthWritable then (h, arrayState (h.object o), .ok false)
      else arraySetLength first second h o .assigned := rfl
  rw [freezesAtValue_iff]
  unfold assignLength setArrayLength at hperform
  cases hwritable : (h.object o).lengthWritable with
  | false =>
    -- Neither converts the value.
    rw [hwritable] at hperform hprescribed
    simp only [Bool.not_false, Bool.and_self, if_true] at hperform hprescribed
    simp only [Bool.false_eq_true, false_and, and_false, not_false_eq_true, iff_true]
    cases strict with
    | false =>
      exact LengthRequest.conforms_of hperform hprescribed (fun _ _ => rfl) rfl rfl rfl
    | true =>
      exact LengthRequest.conforms_of hperform hprescribed (fun _ _ => rfl) rfl rfl ⟨_, rfl⟩
  | true =>
    rw [hwritable] at hperform hprescribed
    simp only [Bool.not_true, Bool.and_false, Bool.false_eq_true, if_false] at hperform hprescribed
    rw [arraySetLength_eq rfl] at hprescribed
    generalize toArrayLength first second h = after at *
    obtain ⟨h', outcome | requested⟩ := after
    · simp only [Prod.mk.injEq, reduceCtorEq, and_false, false_and, exists_false, not_false_eq_true,
        iff_true]
      exact LengthRequest.conforms_of hperform hprescribed (fun _ _ => rfl) rfl rfl rfl
    · obtain ⟨harray, hreport⟩ :=
        setArrayLengthConverted_eq hstored hkind' value requested strict false
      have hothers := (@setArrayLengthConverted_changes canonical h' o requested value (by
        unfold uint32Max
        omega) strict false).others
      have hcell := setArrayLengthConverted_cell h' o value requested strict false
      have hreports := @assignment_reports_iff o value (h'.object o) strict
        ((arrayState (h'.object o)).setLength requested .assigned).2
      have hfreezes : ((h'.object o).lengthWritable = false ∧
          (requested : ℕ) = (h'.object o).arrayLength) ↔
          ((arrayState (h'.object o)).setLength requested .assigned).2 = true ∧
            (h'.object o).lengthWritable = false := by
        rw [and_comm]
        refine and_congr_left fun hreadOnly => ?_
        rw [ArrayState.setLength_readOnly hreadOnly LengthDescriptor.not_contradicts_assigned,
          decide_eq_true_eq]
        rfl
      rw [← hreport] at hreports
      simp only [Prod.mk.injEq, Except.ok.injEq, true_and, ↓existsAndEq]
      rw [hfreezes, ← hreports]
      constructor
      · intro hconforms
        have := hconforms.reports
        rw [hperform, hprescribed] at this
        exact this
      · exact LengthRequest.conforms_of hperform hprescribed hothers hcell harray

/-! ## Runs -/

/-- In every run, the runtime writes an array length as ECMA-262 prescribes, unless strict code
assigns it a value whose conversions make it read-only and return the value it then has. -/
theorem lengthRequest_conforms_iff
    (run : Steps (Step canonical) Heap.empty operations h) (hkind : (h.object o).kind = .array)
    (hfirst : first.Runs canonical) (hsecond : second.Runs canonical) (value : Value)
    (request : LengthRequest) :
    request.Conforms first second h o value ↔
      ¬(request = .assignment true ∧ FreezesAtValue first second h o) := by
  obtain ⟨converted, hrun⟩ := toArrayLength_run hfirst hsecond h
  have hstored := ((Heap.empty_shapes.run run).run hrun).stored o
  have hkind' := kind_array_run hkind (Heap.Created.run run) hrun
  cases request with
  | assignment strict =>
    rw [assignment_conforms_iff hstored hkind']
    simp
  | definition descriptor => simp [definition_conforms hkind hstored hkind']

/-! ## A conversion that makes the length read-only -/

/-- The conversion of an object whose `valueOf` makes the length of an array read-only, and
returns an integer. -/
def freezingConversion (o : ℕ) (n : ℤ) : Conversion := fun h =>
  (h.setObject o (restrict ⟨false, true, false, false, false⟩), .ok (.ofInt n))

lemma freezingConversion_runs (o : ℕ) (n : ℤ) : (freezingConversion o n).Runs canonical :=
  fun h => ⟨_, .single (.restrict h o ⟨false, true, false, false, false⟩)⟩

/-- An array of two elements that is assigned its own length. -/
theorem lengthRequest_conforms_definition :
    let array := Heap.empty.create (newArray .null 2)
    let convert := freezingConversion 0 2
    (LengthRequest.definition ⟨true, none, none, none⟩).Conforms convert convert array 0
        (.object 1) ↔
      ¬(LengthRequest.definition ⟨true, none, none, none⟩ = .assignment true ∧
        FreezesAtValue convert convert array 0) :=
  @lengthRequest_conforms_iff (fun _ => false) _ 0 _ _ _
    (.single (.arrayCreate .empty .null 2 (by decide))) rfl
    (freezingConversion_runs 0 2) (freezingConversion_runs 0 2) (.object 1) _

lemma freezesAtValue_freezing :
    FreezesAtValue (freezingConversion 0 2) (freezingConversion 0 2)
      (Heap.empty.create (newArray .null 2)) 0 := by
  have htwo : (Number.ofInt 2).Is ((2 : ℤ) : ℚ) := Number.ofInt_is (by norm_num)
  refine ⟨rfl, _, _, _, _, rfl, rfl, rfl, ?_, ?_⟩
  · obtain ⟨x, hx, hvalue⟩ := htwo
    rw [hx]
    show Number.truncated x.value % 2 ^ 32 = ((2 : ℕ) : ℤ)
    rw [hvalue, Number.truncated_intCast]
    norm_num
  · show equalNumbers (.ofInt 2) (.ofInt 2) = true
    obtain ⟨x, hx, -⟩ := htwo
    rw [hx]
    exact decide_eq_true rfl

/-- The strict assignment of its own length, by a value whose conversion makes it read-only. -/
theorem lengthRequest_frozen :
    let array := Heap.empty.create (newArray .null 2)
    let convert := freezingConversion 0 2
    (∃ operations, Steps (Step fun _ => false) .empty operations array) ∧
      convert.Runs (fun _ => false) ∧
      ¬(LengthRequest.assignment true).Conforms convert convert array 0 (.object 1) := by
  have hrun : Steps (Step fun _ => false) .empty _ (Heap.empty.create (newArray .null 2)) :=
    .single (.arrayCreate .empty .null 2 (by decide))
  have hruns : (freezingConversion 0 2).Runs fun _ => false := freezingConversion_runs 0 2
  refine ⟨⟨_, hrun⟩, hruns, ?_⟩
  obtain ⟨_, hconverted⟩ := toArrayLength_run hruns hruns (Heap.empty.create (newArray .null 2))
  have hafter := hrun.trans hconverted
  rw [assignment_conforms_iff ((Heap.empty_shapes.run hafter).stored 0) rfl, not_not]
  exact ⟨rfl, freezesAtValue_freezing⟩

end Oseo.PropertyStorage
