import Oseo.PropertyStorage.PropertyRuns

/-!
# The direct and the generic path of an assignment agree

The two walks over the prototype chain end alike, and what the direct path writes to the receiver
is what the definition of the generic path writes.
-/

namespace Oseo.PropertyStorage

open Option
open Oseo.Library

variable {canonical : List ℕ → Bool} {hasIndex : ℕ → PropertyKey → Bool}
  {first second : Conversion} {h h' : Heap} {o : ℕ} {key : PropertyKey} {value : Value}
  {property : OseoProperty} {slot index steps : ℕ} {strict : Bool} {memory : Memory}
  {outcome : Outcome} {descriptor : Descriptor}

/-! ## The walks -/

/-- Both walks end with an answer, or leave the write to the receiver. -/
inductive WalksAlike (strict : Bool) (value : Value) : SetWalk → BaseWalk → Prop
  | answered {direct generic : Outcome} (hreport : ReportsAlike strict value direct generic) :
    WalksAlike strict value (.answered direct) (.answered generic)
  | slot (index : ℕ) : WalksAlike strict value (.slot index) .receiver
  | virtual (attributes : OseoPropertyAttributes) :
    WalksAlike strict value (.virtual attributes) .receiver
  | absent : WalksAlike strict value .absent .receiver

lemma reportsAlike_refuse (strict : Bool) (value : Value) (message message' : String) :
    ReportsAlike strict value (refuseSet strict message value) (.refused message') := by
  right
  refine ⟨message', rfl, ?_⟩
  cases strict with
  | false => rfl
  | true => exact ⟨message, rfl⟩

lemma descriptors_alike (h : Heap) (o : ℕ) (key : PropertyKey) (value : Value) (strict : Bool)
    (current : ℕ) (descriptor : Descriptor) :
    WalksAlike strict value (setDescriptor h o key value strict current descriptor)
      (baseDescriptor h (.object o) value descriptor) := by
  unfold setDescriptor baseDescriptor
  split
  · split
    · exact .answered (reportsAlike_refuse ..)
    · exact .answered (.inl rfl)
  · split
    · exact .answered (reportsAlike_refuse ..)
    · split
      · split
        · split
          · exact .virtual _
          · exact .absent
        · exact .absent
      · split
        · exact .slot _
        · exact .absent

/-- The walk over the prototype chain is the same on both paths. -/
lemma walks_alike (canonical : List ℕ → Bool) (hasIndex : ℕ → PropertyKey → Bool) (h : Heap)
    (o : ℕ) (key : PropertyKey) (value : Value) (strict : Bool) (steps : ℕ) (start : Value) :
    Option.Rel (WalksAlike strict value)
      (objectSetWalk canonical hasIndex h o key value strict steps start)
      (baseWalk canonical hasIndex h key value (.object o) steps start) := by
  induction steps generalizing start with
  | zero => exact .none
  | succ steps ih =>
    cases start with
    | object current =>
      rw [objectSetWalk, baseWalk]
      split
      · exact .some (.answered (.inl rfl))
      · split
        · exact .some (.answered (reportsAlike_refuse ..))
        · split
          · by_cases hreceiver : current = o
            · rw [if_pos hreceiver, if_pos (by rw [hreceiver])]
              exact .some (.answered (.inl rfl))
            · rw [if_neg hreceiver,
                if_neg (show ¬Value.object current = .object o by simpa using hreceiver)]
              split
              · exact .some (.answered (.inl rfl))
              · exact .some .absent
          · cases ownPropertyDescriptor h current key with
            | some descriptor => exact .some (descriptors_alike ..)
            | none => exact ih _
    | _ => exact .some .absent

/-- Past an object without the key, the walk never comes back to it. -/
lemma objectSetWalk_inherited (hnone : ownPropertyDescriptor h o key = none) {start : Value}
    {walk : SetWalk}
    (hwalk : objectSetWalk canonical hasIndex h o key value strict steps start = some walk) :
    walk = .absent ∨ ∃ outcome, walk = .answered outcome := by
  induction steps generalizing start with
  | zero => cases hwalk
  | succ steps ih =>
    cases start with
    | object current =>
      rw [objectSetWalk] at hwalk
      repeat' split at hwalk
      all_goals try (cases hwalk; first | exact .inl rfl | exact .inr ⟨_, rfl⟩)
      · next descriptor hdescriptor =>
        have hne : current ≠ o := by
          rintro rfl
          rw [hnone] at hdescriptor
          cases hdescriptor
        cases hwalk
        unfold setDescriptor
        repeat' split
        all_goals first | exact .inl rfl | exact .inr ⟨_, rfl⟩
      · exact ih hwalk
    | _ =>
      cases hwalk
      exact .inl rfl

/-! ## Outcomes -/

lemma Agrees.refused (h : Heap) (strict : Bool) (value : Value) (message message' : String) :
    Agrees strict value (h, refuseSet strict message value) (h, .refused message') :=
  ⟨fun _ => rfl, fun _ => rfl, reportsAlike_refuse ..⟩

lemma Agrees.refl (strict : Bool) (value : Value) (set : Heap × Outcome) :
    Agrees strict value set set :=
  ⟨fun _ => rfl, fun _ => rfl, .inl rfl⟩

/-- The allocations of an assignment that fail end it with a diagnostic. -/
def Memory.Fails (memory : Memory) : Prop :=
  ∀ entry outcome, memory.representative entry = .error outcome →
    ∃ code message, outcome = .failure code message

lemma Memory.Fails.localSymbol (hmemory : memory.Fails)
    (hlocal : localSymbol memory key = .error outcome) :
    ∃ code message, outcome = .failure code message := by
  unfold PropertyStorage.localSymbol at hlocal
  split at hlocal
  · next entry =>
    cases hentry : memory.representative entry with
    | error failed =>
      rw [hentry] at hlocal
      cases hlocal
      exact hmemory entry outcome hentry
    | ok ref =>
      rw [hentry] at hlocal
      cases hlocal
  · cases hlocal

lemma assigned_heap (value : Value) (set : Heap × Outcome) : (assigned value set).1 = set.1 := by
  obtain ⟨h, outcome⟩ := set
  cases outcome <;> rfl

lemma assigned_normal {set : Heap × Outcome} {result : Value} (hset : set.2 = .normal result) :
    (assigned value set).2 = .normal value := by
  obtain ⟨h, outcome⟩ := set
  cases hset
  rfl

lemma assigned_refused {set : Heap × Outcome} {message : String} (hset : set.2 = .refused message) :
    (assigned value set).2 = .refused message := by
  obtain ⟨h, outcome⟩ := set
  cases hset
  rfl

/-! ## Definitions on the receiver -/

/-- A key the receiver keeps in its property vector, or would. -/
structure OrdinaryKey (canonical : List ℕ → Bool) (object : OseoOrdinaryObject)
    (key : PropertyKey) : Prop where
  proxy : object.kind ≠ .proxy
  namespaced : object.moduleNamespace = false
  numeric : (object.kind = .typedArray && typedArrayNumericKey canonical key) = false
  legacy : legacyLiveKey object key = none
  prototype : (functionHasPrototypeProperty object && key = prototypeKey) = false
  length : (object.kind = .array && key = lengthKey) = false

lemma legacyMaterialize_none (hlegacy : legacyLiveKey (h.object o) key = none) :
    legacyMaterialize h o key memory = .ok h := by
  unfold legacyMaterialize
  rw [hlegacy]

section
variable (hkey : OrdinaryKey canonical (h.object o) key)
include hkey

lemma OrdinaryKey.reported_eq (attributes : OseoPropertyAttributes) (absentWritable : Bool) :
    defineDataReported canonical h o key value attributes true absentWritable (.ok 0) memory =
      match virtualStringIteratorDescriptor h o key with
        | some virtual => defineVirtualData h o key value attributes virtual true memory
        | none => defineOrdinaryData h o key value attributes false memory := by
  unfold defineDataReported defineDataProperty
  rw [hkey.numeric, legacyMaterialize_none hkey.legacy]
  dsimp only
  rw [if_neg hkey.proxy, if_neg Bool.false_ne_true, hkey.prototype, if_neg Bool.false_ne_true,
    hkey.length]
  rfl

lemma OrdinaryKey.define_eq (attributes : OseoPropertyAttributes) (absentWritable : Bool) :
    defineDataConverting canonical first second h o key value attributes absentWritable memory =
      assigned value (match virtualStringIteratorDescriptor h o key with
        | some virtual => defineVirtualData h o key value attributes virtual true memory
        | none => defineOrdinaryData h o key value attributes false memory) := by
  unfold defineDataConverting
  rw [hkey.length, if_neg Bool.false_ne_true, hkey.reported_eq]

/-- The descriptor of such a key is that of the vector, or of the virtual String iterator. -/
lemma OrdinaryKey.descriptor_eq :
    ownPropertyDescriptor h o key =
      (((ownPropertyIndex (h.object o) key).bind fun index => (h.object o).properties[index]?).map
        fun property =>
          if property.attributes.accessor then
            ⟨.undefined, property.attributes, property.getter, property.setter⟩
          else .data property.value property.attributes).or
        ((virtualStringIteratorDescriptor h o key).map (.data .undefined)) := by
  unfold ownPropertyDescriptor legacyDescriptor ownDescriptor
  dsimp only
  rw [hkey.legacy, hkey.prototype, hkey.length]
  rfl

/-! ## A new property -/

/-- An absent property is appended alike. -/
lemma setAbsent_agrees (hmemory : memory.Fails) (hnone : ownPropertyDescriptor h o key = none)
    (hstored : WellStored canonical (h.object o)) :
    Agrees strict value (setAbsent h o key value strict memory)
      (defineDataConverting canonical first second h o key value ⟨true, true, true, false⟩ false
        memory) := by
  rw [hkey.descriptor_eq, or_eq_none_iff, map_eq_none_iff,
    map_eq_none_iff] at hnone
  rw [hkey.define_eq, hnone.2]
  have hindex : ownPropertyIndex (h.object o) key = none := by
    cases hindex : ownPropertyIndex (h.object o) key with
    | none => rfl
    | some found =>
      obtain ⟨property, hget, -⟩ := hstored.lookup_some hindex
      rw [hindex, bind_some, hget] at hnone
      cases hnone.1
  unfold setAbsent defineOrdinaryData
  dsimp only
  rw [hindex, hkey.namespaced, bind_none, Bool.not_false, Bool.and_true]
  -- The two refusals are told in another order.
  by_cases hextensible : (h.object o).extensible = true
  · rw [if_neg (by simp [hextensible])]
    by_cases hextends : (extendsArray (h.object o) key && !(h.object o).lengthWritable) = true
    · rw [if_pos hextends, if_pos hextends]
      exact .refused h ..
    · rw [if_neg hextends, if_neg hextends, if_neg Bool.false_ne_true,
        if_neg (by simp [hextensible])]
      unfold defineAbsent
      cases hlocal : localSymbol memory key with
      | error outcome =>
        obtain ⟨code, message, rfl⟩ := hmemory.localSymbol hlocal
        exact .refl ..
      | ok key' =>
        cases hgrow : growProperties (h.object o) memory with
        | error outcome =>
          obtain ⟨message, rfl⟩ := growProperties_error hgrow
          exact .refl ..
        | ok grown => exact .refl ..
  · rw [if_pos (by simp [hextensible])]
    split
    · exact .refused h ..
    · rw [if_neg Bool.false_ne_true, if_pos (by simp [hextensible])]
      exact .refused h ..

end

/-! ## A property in its slot -/

/-- A key in the vector does not extend its array. -/
lemma WellStored.extendsArray_slot {object : OseoOrdinaryObject}
    (hstored : WellStored canonical object) (hindex : ownPropertyIndex object key = some index) :
    extendsArray object key = false := by
  obtain ⟨property, hget, hequal⟩ := hstored.lookup_some hindex
  unfold extendsArray
  by_cases hkind : object.kind = .array
  · rw [decide_eq_true hkind, Bool.true_and]
    cases hkey : arrayIndex key with
    | none => rfl
    | some i =>
      have := hstored.below hkind property.key (key_mem hget) i
        ((arrayIndex_congr hequal).trans hkey)
      simp only [any_some, decide_eq_false_iff_not]
      omega
  · rw [decide_eq_false hkind, Bool.false_and]

/-- The heaps show the same objects, and bind the same values. -/
lemma Agrees.of_self {direct generic : Heap} {outcome' : Outcome}
    (hothers : ∀ x, x ≠ o → (direct.object x).shown = (generic.object x).shown)
    (hself : (direct.object o).shown = (generic.object o).shown)
    (hbindings : ∀ c, (direct.cell c).value = (generic.cell c).value)
    (hreport : ReportsAlike strict value outcome outcome') :
    Agrees strict value (direct, outcome) (generic, outcome') where
  objects x := by
    by_cases hx : x = o
    · rw [hx]
      exact hself
    · exact hothers x hx
  bindings := hbindings
  outcome := hreport

lemma shown_newDictionary (h : Heap) (o x : ℕ) :
    ((h.newDictionary o).object x).shown = (h.object x).shown := by
  unfold Heap.newDictionary
  by_cases hx : x = o
  · rw [hx, newShape_self, setObject_self]
    rfl
  · rw [newShape_of_ne hx, setObject_of_ne hx]

/-- The definition of a value for a writable property that is no view of a binding. -/
lemma redefineData_plain (hplain : cellBackedProperty (h.object o) property.value = false)
    (haccessor : property.attributes.accessor = false)
    (hwritable : property.attributes.writable = true) :
    redefineData h o index property value property.attributes =
      ((h.setObject o fun object => redefineProperty object index
          { property with value, getter := .undefined, setter := .undefined }).newDictionary o,
        .normal (.object o)) := by
  unfold redefineData
  dsimp only
  rw [hplain, if_neg Bool.false_ne_true]
  dsimp only
  rw [if_neg (by simp [haccessor, hwritable])]
  split
  · contradiction
  · rfl

lemma setPlain_agrees (hget : (h.object o).properties[index]? = some property)
    (hplain : cellBackedProperty (h.object o) property.value = false)
    (haccessor : property.attributes.accessor = false)
    (hwritable : property.attributes.writable = true) :
    Agrees strict value (setSlot h o index value)
      (assigned value (redefineData h o index property value property.attributes)) := by
  rw [redefineData_plain hplain haccessor hwritable]
  unfold setSlot
  rw [hget]
  dsimp only
  rw [hplain, if_neg Bool.false_ne_true]
  refine @Agrees.of_self o value strict _ _ _ _ (fun x hx => ?_) ?_ (fun _ => rfl) (.inl rfl)
  · rw [shown_newDictionary, setObject_of_ne hx, setObject_of_ne hx]
  · rw [shown_newDictionary, setObject_self, setObject_self]
    unfold OseoOrdinaryObject.shown redefineProperty
    rw [List.map_set, List.map_set]
    simp [OseoProperty.shown, haccessor]

/-- The binding that a property views. -/
def Uninitialized (h : Heap) (c : ℕ) : Prop := (h.cell c).value = none

/-- The write in place of a property that is a view of a binding. -/
lemma setView_agrees_iff {c : ℕ} (hget : (h.object o).properties[index]? = some property)
    (hvalue : property.value = .cell c)
    (hview : cellBackedProperty (h.object o) (.cell c) = true)
    (hresolvable : (h.cell c).unresolvableMessage = none)
    (haccessor : property.attributes.accessor = false)
    (hwritable : property.attributes.writable = true) :
    Agrees strict value (setSlot h o index value)
      (assigned value (redefineData h o index property value property.attributes)) ↔
      ¬Uninitialized h c := by
  unfold setSlot redefineData Uninitialized
  rw [hget]
  dsimp only
  rw [hvalue, hview, if_pos rfl, if_pos rfl]
  unfold cellGet cellSet
  dsimp only
  rw [hresolvable]
  cases hbound : (h.cell c).value with
  | none =>
    simp only [not_true_eq_false, iff_false]
    intro hagrees
    have hreport := hagrees.outcome
    simp [assigned, ReportsAlike] at hreport
  | some current =>
    simp only [reduceCtorEq, not_false_eq_true, iff_true]
    rw [if_neg (by simp [haccessor, hwritable]), hwritable, Bool.not_true, Bool.and_false,
      if_neg Bool.false_ne_true]
    have hsame : (h.object o).properties.set index { property with value := .cell c } =
        (h.object o).properties := by
      obtain ⟨hlt, rfl⟩ := List.getElem?_eq_some_iff.mp hget
      rw [← hvalue]
      exact List.set_getElem_self hlt
    refine @Agrees.of_self o value strict _ _ _ _ (fun x hx => ?_) ?_ (fun c' => ?_) (.inl rfl)
    · split
      · rw [shown_newDictionary, setObject_of_ne hx]
      · show _ = ((Heap.newDictionary _ o).object x).shown
        rw [shown_newDictionary, setObject_of_ne hx]
    · split
      · rw [shown_newDictionary, setObject_self]
        rw [hsame]
      · show _ = ((Heap.newDictionary _ o).object o).shown
        rw [shown_newDictionary, setObject_self]
        rw [hsame]
    · split
      · rfl
      · dsimp only
        by_cases hc : c' = c
        · rw [hc, Function.update_self, Function.update_self]
        · rw [Function.update_of_ne hc, Function.update_of_ne hc]
          exact (congrArg OseoCell.value (Function.update_of_ne hc ..)).symm

/-! ## Keys outside the vector -/

/-- The write of a function's `prototype`. -/
lemma setPrototypeProperty_agrees (hwritable : (h.object o).prototypeWritable = true) :
    Agrees strict value
      (h.setObject o fun function => { function with prototypeObject := value }, .normal value)
      (assigned value (defineFunctionPrototype h o value ⟨false, false, true, false⟩)) := by
  unfold defineFunctionPrototype
  dsimp only
  rw [hwritable, if_neg (by simp)]
  refine @Agrees.of_self o value strict _ _ _ _ (fun x hx => ?_) ?_ (fun _ => rfl) (.inl rfl)
  · rw [setObject_of_ne hx, setObject_of_ne hx]
  · rw [setObject_self, setObject_self]
    unfold OseoOrdinaryObject.shown
    rw [hwritable]

lemma virtualStringIteratorDescriptor_some {virtual : OseoPropertyAttributes}
    (hvirtual : virtualStringIteratorDescriptor h o key = some virtual) :
    arrayIndex key = none ∧ virtual.accessor = false := by
  unfold virtualStringIteratorDescriptor at hvirtual
  dsimp only at hvirtual
  split at hvirtual
  · cases hvirtual
  · next hiterator =>
    split at hvirtual
    · cases hvirtual
    · cases hvirtual
      refine ⟨?_, rfl⟩
      simp only [Bool.or_eq_true, decide_eq_true_eq, not_or, not_not] at hiterator
      obtain ⟨symbol, -, rfl⟩ := map_eq_some_iff.mp hiterator.2
      rfl

/-- A definition of an absent property is never refused. -/
lemma Memory.Fails.defineAbsent (hmemory : memory.Fails) (h : Heap) (o : ℕ) (replaces : Bool)
    (property : OseoProperty) :
    (PropertyStorage.defineAbsent h o replaces property memory).2 = .normal (.object o) ∨
      ∃ code message,
        (PropertyStorage.defineAbsent h o replaces property memory).2 = .failure code message := by
  unfold PropertyStorage.defineAbsent
  cases hlocal : PropertyStorage.localSymbol memory property.key with
  | error outcome =>
    right
    exact hmemory.localSymbol hlocal
  | ok key' =>
    cases hgrow : growProperties (h.object o) memory with
    | error outcome =>
      obtain ⟨message, rfl⟩ := growProperties_error hgrow
      exact .inr ⟨_, _, rfl⟩
    | ok grown => exact .inl rfl

/-- The definition in place of the virtual String iterator. -/
lemma defineVirtual_eq {virtual : OseoPropertyAttributes}
    (hkey : OrdinaryKey canonical (h.object o) key)
    (hvirtual : virtualStringIteratorDescriptor h o key = some virtual)
    (hwritable : virtual.writable = true)
    (hindex : ownPropertyIndex (h.object o) key = none) (absentWritable : Bool) :
    defineDataReported canonical h o key value virtual true absentWritable (.ok 0) memory =
      defineAbsent h o true ⟨virtual, key, value, .undefined, .undefined⟩ memory := by
  have hextends : extendsArray (h.object o) key = false := by
    unfold extendsArray
    rw [(virtualStringIteratorDescriptor_some hvirtual).1, any_none, Bool.and_false]
  rw [hkey.reported_eq, hvirtual]
  unfold defineVirtualData defineOrdinaryData
  dsimp only
  rw [if_neg (by cases virtual.configurable <;> simp [hwritable]), if_neg (by simp [hwritable]),
    hextends, hkey.namespaced, hindex, bind_none]
  rw [Bool.false_and, if_neg Bool.false_ne_true, if_neg Bool.false_ne_true, Bool.not_true,
    Bool.and_false, if_neg Bool.false_ne_true]
  rfl

/-- The write in place of the virtual String iterator, which is never refused. -/
lemma setVirtual_agrees {virtual : OseoPropertyAttributes}
    (hkey : OrdinaryKey canonical (h.object o) key) (hmemory : memory.Fails)
    (hvirtual : virtualStringIteratorDescriptor h o key = some virtual)
    (hwritable : virtual.writable = true)
    (hindex : ownPropertyIndex (h.object o) key = none) :
    Agrees strict value
      (match defineDataReported canonical h o key value virtual true false (.ok 0) memory with
        | (h, .normal _) => (h, .normal value)
        | (h, .refused message) => (h, .typeError message)
        | defined => defined)
      (defineDataConverting canonical first second h o key value
        { virtual with accessor := false } true memory) := by
  have hsame : { virtual with accessor := false } = virtual := by
    rw [← (virtualStringIteratorDescriptor_some hvirtual).2]
  rw [hsame, hkey.define_eq, ← hkey.reported_eq _ true,
    defineVirtual_eq hkey hvirtual hwritable hindex,
    defineVirtual_eq hkey hvirtual hwritable hindex]
  have hreport := hmemory.defineAbsent h o true ⟨virtual, key, value, .undefined, .undefined⟩
  generalize defineAbsent h o true ⟨virtual, key, value, .undefined, .undefined⟩ memory = defined
    at hreport
  obtain ⟨h', outcome⟩ := defined
  rcases hreport with hnormal | ⟨code, message, hfailure⟩
  · cases hnormal
    exact .refl ..
  · cases hfailure
    exact .refl ..

/-! ## The length of an array -/

/-- What is written does not depend on how it is reported. -/
lemma setArrayLengthConverted_heap (h : Heap) (o : ℕ) (value : Value) (requested : ℕ)
    (strict allowSameValue strict' allowSameValue' : Bool) :
    (setArrayLengthConverted h o value requested strict allowSameValue).1 =
      (setArrayLengthConverted h o value requested strict' allowSameValue').1 := by
  unfold setArrayLengthConverted
  dsimp only
  split
  · repeat' split
    all_goals rfl
  · split
    · rfl
    · split
      · rfl
      · split <;> rfl

lemma settleLength_same {changed : Heap} {requested : ℕ} {writable : Bool}
    (hwritable : (changed.object o).lengthWritable = writable) :
    (∀ x, (settleLength changed o requested writable).1.object x = changed.object x) ∧
      (settleLength changed o requested writable).1.cell = changed.cell := by
  have hsame : ∀ x, (changed.setObject o fun object =>
      { object with lengthWritable := writable }).object x = changed.object x := by
    intro x
    by_cases hx : x = o
    · rw [hx, setObject_self, ← hwritable]
    · rw [setObject_of_ne hx]
  unfold settleLength
  split
  · split
    · next htrue =>
      rw [hwritable] at htrue
      rw [htrue]
      exact ⟨fun _ => rfl, rfl⟩
    · exact ⟨fun _ => rfl, rfl⟩
  · exact ⟨hsame, rfl⟩

/-- From the conversion on, both paths write the same. -/
lemma setConverted_agrees_iff (hstored : WellStored canonical (h.object o))
    (hkind : (h.object o).kind = .array) (requested : Fin (2 ^ 32)) :
    Agrees strict value (setArrayLengthConverted h o value requested strict false)
      (assigned value
        (defineArrayLength h o value ⟨false, false, true, false⟩ true true (.ok requested))) ↔
      ¬(strict = true ∧ (h.object o).lengthWritable = false ∧
        (requested : ℕ) = (h.object o).arrayLength) := by
  obtain ⟨harray, hreport⟩ := setArrayLengthConverted_eq hstored hkind value requested strict false
  have hlength := ArrayState.setLength_length (arrayState (h.object o)) requested
  have hkeeps : ((setArrayLengthConverted h o value requested strict false).1.object
      o).lengthWritable = (h.object o).lengthWritable := by
    have := ArrayState.setLength_keeps (arrayState (h.object o)) requested
    rwa [← harray] at this
  have hreadOnly : (h.object o).lengthWritable = false →
      ((arrayState (h.object o)).setLength requested .assigned).2 =
        decide ((requested : ℕ) = (h.object o).arrayLength) := by
    intro hwritable
    rw [ArrayState.setLength_readOnly hwritable LengthDescriptor.not_contradicts_assigned]
    rfl
  rw [← harray] at hlength
  have hheap := setArrayLengthConverted_heap h o value requested false true strict false
  obtain ⟨hobjects, hcells⟩ := @settleLength_same o _ requested _ hkeeps
  obtain ⟨-, hsettled⟩ := @settleLength_eq o requested _ (h.object o).lengthWritable
    fun hchanged => hkeeps.symm.trans hchanged
  have hgeneric : defineArrayLength h o value ⟨false, false, true, false⟩ true true
      (.ok requested) = settleLength
        (setArrayLengthConverted h o value requested strict false).1 o requested
        (h.object o).lengthWritable := by
    rw [defineArrayLength_ok, hheap]
    rw [if_pos rfl, if_neg (by cases (h.object o).lengthWritable <;> simp)]
  rw [hgeneric]
  have hagrees : Agrees strict value (setArrayLengthConverted h o value requested strict false)
      (assigned value (settleLength (setArrayLengthConverted h o value requested strict false).1 o
        requested (h.object o).lengthWritable)) ↔
      ReportsAlike strict value (setArrayLengthConverted h o value requested strict false).2
        (assigned value (settleLength (setArrayLengthConverted h o value requested strict false).1 o
          requested (h.object o).lengthWritable)).2 := by
    refine ⟨Agrees.outcome, fun hreports => ⟨fun x => ?_, fun c => ?_, hreports⟩⟩
    · rw [assigned_heap, hobjects]
    · rw [assigned_heap, hcells]
  rw [hagrees, hreport]
  have hdecided : ((arrayState (h.object o)).setLength requested .assigned).2 =
      decide (((setArrayLengthConverted h o value requested strict false).1.object
        o).arrayLength = (requested : ℕ)) := hlength
  by_cases hwritten : ((setArrayLengthConverted h o value requested strict false).1.object
      o).arrayLength = (requested : ℕ)
  · -- The length is the requested one.
    rw [if_pos hwritten] at hsettled
    rw [assigned_normal hsettled, hdecided, decide_eq_true hwritten, Bool.true_and, Bool.or_false]
    cases hwritable : (h.object o).lengthWritable with
    | true =>
      have hnormal : lengthOutcome (h.object o) value strict true = .normal value := rfl
      rw [hnormal]
      simp [ReportsAlike]
    | false =>
      have hsame : (requested : ℕ) = (h.object o).arrayLength := by
        have := hreadOnly hwritable
        rw [hdecided, decide_eq_true hwritten] at this
        exact of_decide_eq_true this.symm
      cases strict <;> simp [lengthOutcome, hwritable, hsame, ReportsAlike]
  · -- An element could not be deleted, or the array keeps its length.
    rw [if_neg hwritten] at hsettled
    obtain ⟨message, hsettled⟩ := hsettled
    rw [assigned_refused hsettled, hdecided, decide_eq_false hwritten, Bool.false_and]
    have hother : ¬(strict = true ∧ (h.object o).lengthWritable = false ∧
        (requested : ℕ) = (h.object o).arrayLength) := by
      rintro ⟨-, hwritable, hsame⟩
      have := hreadOnly hwritable
      rw [hdecided, decide_eq_false hwritten] at this
      exact of_decide_eq_false this.symm hsame
    refine iff_of_true (.inr ⟨message, rfl, ?_⟩) hother
    cases strict with
    | false => rfl
    | true =>
      by_cases hwritable : (h.object o).lengthWritable = true
      · exact ⟨_, if_pos hwritable⟩
      · exact ⟨_, if_neg hwritable⟩

end Oseo.PropertyStorage
