import Oseo.PropertyStorage.GenericSetTheorems

/-!
# The two paths of an assignment over runs

In every run, the direct path of an assignment ends as the generic path does, but for two cases:
the assignment of the length that its conversions have made read-only, and a property that views
a binding without a value.
-/

namespace Oseo.PropertyStorage

open Option
open Oseo.Library

variable {canonical : List ℕ → Bool} {hasIndex : ℕ → PropertyKey → Bool}
  {first second : Conversion} {h h' : Heap} {o : ℕ} {key : PropertyKey} {value : Value}
  {steps : ℕ} {strict : Bool} {memory : Memory} {operations : List Operation}

/-! ## The cases -/

/-- The key is that of a writable property which views a binding without a value. -/
def ViewsUninitialized (canonical : List ℕ → Bool) (h : Heap) (o : ℕ) (key : PropertyKey) : Prop :=
  OrdinaryKey canonical (h.object o) key ∧ ∃ index property c,
    ownPropertyIndex (h.object o) key = some index ∧
      (h.object o).properties[index]? = some property ∧ property.value = .cell c ∧
      cellBackedProperty (h.object o) (.cell c) = true ∧ property.attributes.accessor = false ∧
      property.attributes.writable = true ∧ Uninitialized h c

/-- Strict code assigns an array the length that the conversions have made read-only. -/
def FreezesAssigned (first second : Conversion) (h : Heap) (o : ℕ) (key : PropertyKey)
    (strict : Bool) : Prop :=
  (h.object o).kind = .array ∧ (h.object o).moduleNamespace = false ∧ key = lengthKey ∧
    strict = true ∧ FreezesAtValue first second h o

/-- What the runtime keeps of every object that a program can name: it is not the record of the
global lexical bindings, the virtual String iterator goes when a property takes its place, and the
cells of object environments are in no property. -/
structure ProgramObject (h : Heap) (o : ℕ) : Prop where
  named : h.globalLexicals ≠ some o
  replaced : ∀ key virtual, virtualStringIteratorDescriptor h o key = some virtual →
    ownPropertyIndex (h.object o) key = none
  resolvable : ∀ property ∈ (h.object o).properties, ∀ c, property.value = .cell c →
    (h.cell c).unresolvableMessage = none

/-- Both paths have an answer, and the answers agree. -/
abbrev PathsAgree (canonical : List ℕ → Bool) (hasIndex : ℕ → PropertyKey → Bool)
    (first second : Conversion) (h : Heap) (steps o : ℕ) (key : PropertyKey) (value : Value)
    (strict : Bool) (memory : Memory) : Prop :=
  Option.Rel (Agrees strict value)
    (objectSetConverting canonical hasIndex first second h steps o key value strict memory)
    (setWithReceiver canonical hasIndex first second h steps (.object o) key value (.object o)
      memory)

lemma ProgramObject.objectSet_eq (hobject : ProgramObject h o) :
    objectSet canonical hasIndex h steps o key value strict memory =
      setOrdinary canonical hasIndex h steps o key value strict memory := by
  unfold objectSet
  rw [if_neg hobject.named]

lemma objectSetConverting_eq (hobject : ProgramObject h o) {set : Heap × Outcome}
    (hset : setOrdinary canonical hasIndex h steps o key value strict memory = some set)
    (hconverts : set.2 ≠ .lengthConversion) :
    objectSetConverting canonical hasIndex first second h steps o key value strict memory =
      some set := by
  unfold objectSetConverting
  rw [hobject.objectSet_eq, hset, map_some]
  obtain ⟨h', outcome⟩ := set
  cases outcome <;> first | rfl | exact absurd rfl hconverts

lemma refuseSet_ne (strict : Bool) (message : String) (value : Value) :
    refuseSet strict message value ≠ .lengthConversion := by
  unfold refuseSet
  split
  · exact Outcome.noConfusion
  · exact Outcome.noConfusion

/-! ## Answers of the direct path -/

lemma setDescriptor_ne {current : ℕ} {descriptor : Descriptor} {outcome : Outcome}
    (hanswered : setDescriptor h o key value strict current descriptor = .answered outcome) :
    outcome ≠ .lengthConversion := by
  unfold setDescriptor at hanswered
  repeat' split at hanswered
  all_goals cases hanswered
  all_goals first | exact refuseSet_ne _ _ _ | exact Outcome.noConfusion

lemma objectSetWalk_ne {start : Value} {outcome : Outcome}
    (hwalk : objectSetWalk canonical hasIndex h o key value strict steps start =
      some (.answered outcome)) : outcome ≠ .lengthConversion := by
  induction steps generalizing start with
  | zero => cases hwalk
  | succ steps ih =>
    cases start with
    | object current =>
      rw [objectSetWalk] at hwalk
      repeat' split at hwalk
      case h_1 descriptor _ => exact setDescriptor_ne (some.inj hwalk)
      case h_2 => exact ih hwalk
      all_goals cases hwalk
      all_goals first | exact refuseSet_ne _ _ _ | exact Outcome.noConfusion
    | _ => cases hwalk

lemma setSlot_ne (h : Heap) (o index : ℕ) (value : Value) :
    (setSlot h o index value).2 ≠ .lengthConversion := by
  unfold setSlot cellSet
  repeat' split
  all_goals exact Outcome.noConfusion

lemma setAbsent_ne (hmemory : memory.Fails) :
    (setAbsent h o key value strict memory).2 ≠ .lengthConversion := by
  unfold setAbsent
  dsimp only
  repeat' split
  · exact refuseSet_ne _ _ _
  · exact refuseSet_ne _ _ _
  · next hlocal =>
    obtain ⟨code, message, rfl⟩ := hmemory.localSymbol hlocal
    exact Outcome.noConfusion
  · next hgrow =>
    obtain ⟨message, rfl⟩ := growProperties_error hgrow
    exact Outcome.noConfusion
  · exact Outcome.noConfusion

/-! ## Keys of the property vector -/

/-- A property that the vector keeps under the key. -/
lemma OrdinaryKey.descriptor_slot (hkey : OrdinaryKey canonical (h.object o) key) {index : ℕ}
    {property : OseoProperty} (hindex : ownPropertyIndex (h.object o) key = some index)
    (hget : (h.object o).properties[index]? = some property) :
    ownPropertyDescriptor h o key = some (if property.attributes.accessor then
      ⟨.undefined, property.attributes, property.getter, property.setter⟩
      else .data property.value property.attributes) := by
  rw [hkey.descriptor_eq, hindex, bind_some, hget]
  rfl

/-- A property that is written in its slot. -/
lemma setSlot_agrees_iff (hkey : OrdinaryKey canonical (h.object o) key)
    (hstored : WellStored canonical (h.object o)) (hobject : ProgramObject h o) {index : ℕ}
    {property : OseoProperty} (hindex : ownPropertyIndex (h.object o) key = some index)
    (hget : (h.object o).properties[index]? = some property)
    (haccessor : property.attributes.accessor = false)
    (hwritable : property.attributes.writable = true) :
    Agrees strict value (setSlot h o index value)
        (defineDataConverting canonical first second h o key value
          { property.attributes with accessor := false } true memory) ↔
      ¬ViewsUninitialized canonical h o key := by
  have hsame : { property.attributes with accessor := false } = property.attributes := by
    rw [← haccessor]
  have hvirtual : virtualStringIteratorDescriptor h o key = none := by
    cases hvirtual : virtualStringIteratorDescriptor h o key with
    | none => rfl
    | some virtual =>
      rw [hobject.replaced key virtual hvirtual] at hindex
      cases hindex
  have hdefine : defineOrdinaryData h o key value property.attributes false memory =
      redefineData h o index property value property.attributes := by
    unfold defineOrdinaryData
    dsimp only
    rw [hstored.extendsArray_slot hindex, hkey.namespaced, hindex, bind_some,
      bind_some, hget]
    rfl
  rw [hsame, hkey.define_eq, hvirtual]
  rw [hdefine]
  cases hview : cellBackedProperty (h.object o) property.value with
  | false =>
    refine iff_of_true (setPlain_agrees hget hview haccessor hwritable) ?_
    rintro ⟨-, index', property', c, hindex', hget', hvalue, hview', -⟩
    cases hindex.symm.trans hindex'
    cases hget.symm.trans hget'
    rw [hvalue, hview'] at hview
    cases hview
  | true =>
    obtain ⟨c, hvalue⟩ : ∃ c, property.value = .cell c := by
      cases hvalue : property.value with
      | cell c => exact ⟨c, rfl⟩
      | _ =>
        rw [hvalue] at hview
        cases hview
    have hmem := List.mem_of_getElem? hget
    rw [hvalue] at hview
    rw [setView_agrees_iff hget hvalue hview (hobject.resolvable property hmem c hvalue) haccessor
      hwritable]
    refine not_congr ⟨fun huninitialized => ?_, ?_⟩
    · exact ⟨hkey, index, property, c, hindex, hget, hvalue, hview, haccessor, hwritable,
        huninitialized⟩
    · rintro ⟨-, index', property', c', hindex', hget', hvalue', -, -, -, huninitialized⟩
      cases hindex.symm.trans hindex'
      cases hget.symm.trans hget'
      cases hvalue.symm.trans hvalue'
      exact huninitialized

/-- No binding is seen where the vector has no writable data property of the key. -/
lemma not_viewsUninitialized (hdescriptor : ∀ descriptor,
    ownPropertyDescriptor h o key = some descriptor →
      descriptor.attributes.accessor = true ∨ descriptor.attributes.writable = false ∨
        ownPropertyIndex (h.object o) key = none) :
    ¬ViewsUninitialized canonical h o key := by
  rintro ⟨hkey, index, property, c, hindex, hget, -, -, haccessor, hwritable, -⟩
  rcases hdescriptor _ (hkey.descriptor_slot hindex hget) with hcase | hcase | hcase
  · simp [haccessor, Descriptor.data] at hcase
  · simp [haccessor, hwritable, Descriptor.data] at hcase
  · rw [hindex] at hcase
    cases hcase

/-- The generic path writes to a receiver that it finds at once. -/
lemma setReceiver_writable (hproxy : (h.object o).kind ≠ .proxy)
    (hnamespace : (h.object o).moduleNamespace = false) {descriptor : Descriptor}
    (hdescriptor : ownPropertyDescriptor h o key = some descriptor)
    (haccessor : descriptor.attributes.accessor = false)
    (hwritable : descriptor.attributes.writable = true) :
    setReceiver canonical first second h key value memory (.object o) =
      defineDataConverting canonical first second h o key value
        { descriptor.attributes with accessor := false } true memory := by
  unfold setReceiver namespaceExportReady
  dsimp only
  rw [if_neg hproxy, hdescriptor, hnamespace]
  dsimp only
  rw [if_pos (by simp), haccessor, hwritable]
  rfl

/-- The walk of the direct path starts at the receiver. -/
lemma objectSetWalk_start (hkey : OrdinaryKey canonical (h.object o) key) {descriptor : Descriptor}
    (hdescriptor : ownPropertyDescriptor h o key = some descriptor) :
    objectSetWalk canonical hasIndex h o key value strict (steps + 1) (.object o) =
      some (setDescriptor h o key value strict o descriptor) := by
  rw [objectSetWalk, if_neg hkey.proxy, hkey.namespaced, if_neg Bool.false_ne_true, hkey.numeric,
    if_neg Bool.false_ne_true, hdescriptor]

lemma baseWalk_start (hproxy : (h.object o).kind ≠ .proxy)
    (hnamespace : (h.object o).moduleNamespace = false)
    (hnumeric : ((h.object o).kind = .typedArray && typedArrayNumericKey canonical key) = false)
    {descriptor : Descriptor} (hdescriptor : ownPropertyDescriptor h o key = some descriptor)
    (receiver : Value) :
    baseWalk canonical hasIndex h key value receiver (steps + 1) (.object o) =
      some (baseDescriptor h receiver value descriptor) := by
  rw [baseWalk, if_neg hproxy, hnamespace, if_neg Bool.false_ne_true, hnumeric, if_neg Bool.false_ne_true,
    hdescriptor]

/-- What the direct path does at the end of its walk. -/
def setWalked (canonical : List ℕ → Bool) (h : Heap) (o : ℕ) (key : PropertyKey) (value : Value)
    (strict : Bool) (memory : Memory) : SetWalk → Heap × Outcome
  | .answered outcome => (h, outcome)
  | .slot index => setSlot h o index value
  | .virtual attributes =>
    match defineDataReported canonical h o key value attributes true false (.ok 0) memory with
    | (h, .normal _) => (h, .normal value)
    | (h, .refused message) => (h, .typeError message)
    | defined => defined
  | .absent => setAbsent h o key value strict memory

section
variable (hkey : OrdinaryKey canonical (h.object o) key)
include hkey

lemma OrdinaryKey.setOrdinary_eq :
    setOrdinary canonical hasIndex h steps o key value strict memory =
      (objectSetWalk canonical hasIndex h o key value strict steps (.object o)).map
        (setWalked canonical h o key value strict memory) := by
  unfold setOrdinary
  rw [if_neg hkey.proxy, hkey.namespaced, if_neg Bool.false_ne_true, hkey.prototype,
    if_neg Bool.false_ne_true, hkey.length, if_neg Bool.false_ne_true]
  congr 1

/-- A descriptor of the receiver ends both walks. -/
lemma found_agrees_iff (hstored : WellStored canonical (h.object o)) (hobject : ProgramObject h o)
    (hmemory : memory.Fails) {descriptor : Descriptor}
    (hdescriptor : ownPropertyDescriptor h o key = some descriptor) :
    Agrees strict value
        (setWalked canonical h o key value strict memory
          (setDescriptor h o key value strict o descriptor))
        (match baseDescriptor h (.object o) value descriptor with
          | .answered outcome => (h, outcome)
          | .receiver => setReceiver canonical first second h key value memory (.object o)) ↔
      ¬ViewsUninitialized canonical h o key := by
  by_cases hdata : descriptor.attributes.accessor = false ∧ descriptor.attributes.writable = true
  · -- A writable data property: the receiver is written.
    obtain ⟨haccessor, hwritable⟩ := hdata
    have hbase : baseDescriptor h (.object o) value descriptor = .receiver := by
      unfold baseDescriptor
      rw [haccessor, hwritable]
      rfl
    rw [hbase]
    rw [setReceiver_writable hkey.proxy hkey.namespaced hdescriptor haccessor hwritable]
    unfold setDescriptor
    rw [haccessor, hwritable, if_neg Bool.false_ne_true, if_neg (by simp)]
    have hfound := hdescriptor
    rw [hkey.descriptor_eq] at hfound
    cases hindex : ownPropertyIndex (h.object o) key with
    | none =>
      rw [hindex, bind_none, map_none, none_or] at hfound
      obtain ⟨virtual, hvirtual, rfl⟩ := map_eq_some_iff.mp hfound
      dsimp only
      rw [if_pos rfl, hvirtual]
      exact iff_of_true (setVirtual_agrees hkey hmemory hvirtual hwritable hindex)
        (not_viewsUninitialized fun _ _ => .inr (.inr hindex))
    | some index =>
      dsimp only
      rw [if_pos rfl]
      obtain ⟨property, hget, -⟩ := hstored.lookup_some hindex
      have hproperty := hkey.descriptor_slot hindex hget
      rw [hdescriptor] at hproperty
      have hplain : property.attributes.accessor = false := by
        cases hcase : property.attributes.accessor with
        | false => rfl
        | true =>
          rw [hcase, if_pos rfl] at hproperty
          cases hproperty
          rw [hcase] at haccessor
          cases haccessor
      rw [hplain, if_neg Bool.false_ne_true] at hproperty
      cases hproperty
      exact setSlot_agrees_iff hkey hstored hobject hindex hget hplain hwritable
  · -- Both walks answer.
    have hother : ¬ViewsUninitialized canonical h o key := by
      refine not_viewsUninitialized fun descriptor' hdescriptor' => ?_
      cases hdescriptor.symm.trans hdescriptor'
      cases haccessor : descriptor.attributes.accessor with
      | true => exact .inl rfl
      | false =>
        right; left
        simpa [haccessor] using hdata
    refine iff_of_true ?_ hother
    cases haccessor : descriptor.attributes.accessor with
    | true =>
      unfold setDescriptor baseDescriptor
      rw [haccessor, if_pos rfl, if_pos rfl]
      cases isCallable h descriptor.setter with
      | false => exact .refused h ..
      | true => exact .refl ..
    | false =>
      have hwritable : descriptor.attributes.writable = false := by simpa [haccessor] using hdata
      unfold setDescriptor baseDescriptor
      rw [haccessor, hwritable, if_neg Bool.false_ne_true, if_neg Bool.false_ne_true]
      exact .refused h ..

/-- The walk stops at a virtual String iterator of the receiver alone. -/
lemma objectSetWalk_virtual {start : Value}
    {attributes : OseoPropertyAttributes}
    (hwalk : objectSetWalk canonical hasIndex h o key value strict steps start =
      some (.virtual attributes)) :
    virtualStringIteratorDescriptor h o key = some attributes ∧ attributes.writable = true ∧
      ownPropertyIndex (h.object o) key = none := by
  induction steps generalizing start with
  | zero => cases hwalk
  | succ steps ih =>
    cases start with
    | object current =>
      rw [objectSetWalk] at hwalk
      repeat' split at hwalk
      case h_1 descriptor hdescriptor =>
        replace hwalk := some.inj hwalk
        unfold setDescriptor at hwalk
        repeat' split at hwalk
        all_goals cases hwalk
        rename_i hwritable _ hindex hcurrent _ hvirtual
        subst hcurrent
        rw [hkey.descriptor_eq, hindex, hvirtual] at hdescriptor
        cases hdescriptor
        refine ⟨hvirtual, ?_, hindex⟩
        simpa [Descriptor.data] using hwritable
      case h_2 => exact ih hwalk
      all_goals cases hwalk
    | _ => cases hwalk

lemma setWalked_ne (hmemory : memory.Fails)
    {walk : SetWalk}
    (hwalk : objectSetWalk canonical hasIndex h o key value strict steps (.object o) = some walk) :
    (setWalked canonical h o key value strict memory walk).2 ≠ .lengthConversion := by
  cases walk with
  | answered outcome => exact objectSetWalk_ne hwalk
  | slot index => exact setSlot_ne h o index value
  | absent => exact setAbsent_ne hmemory
  | virtual attributes =>
    obtain ⟨hvirtual, hwritable, hindex⟩ := objectSetWalk_virtual hkey hwalk
    have hreport := hmemory.defineAbsent h o true ⟨attributes, key, value, .undefined, .undefined⟩
    unfold setWalked
    dsimp only
    rw [defineVirtual_eq hkey hvirtual hwritable hindex]
    generalize defineAbsent h o true ⟨attributes, key, value, .undefined, .undefined⟩ memory =
      defined at hreport
    obtain ⟨h', outcome⟩ := defined
    rcases hreport with hnormal | ⟨code, message, hfailure⟩
    · cases hnormal
      exact Outcome.noConfusion
    · cases hfailure
      exact Outcome.noConfusion

/-- The direct path does what its walk says. -/
lemma OrdinaryKey.objectSetConverting_eq (hobject : ProgramObject h o) (hmemory : memory.Fails) :
    objectSetConverting canonical hasIndex first second h steps o key value strict memory =
      (objectSetWalk canonical hasIndex h o key value strict steps (.object o)).map
        (setWalked canonical h o key value strict memory) := by
  cases hwalk : objectSetWalk canonical hasIndex h o key value strict steps (.object o) with
  | none =>
    unfold objectSetConverting
    rw [hobject.objectSet_eq, hkey.setOrdinary_eq, hwalk]
    rfl
  | some walk =>
    refine PropertyStorage.objectSetConverting_eq hobject ?_ (setWalked_ne hkey hmemory hwalk)
    rw [hkey.setOrdinary_eq, hwalk, map_some]

/-- The two paths for a key of the property vector. -/
lemma ordinary_agrees_iff
    (hstored : WellStored canonical (h.object o)) (hobject : ProgramObject h o)
    (hmemory : memory.Fails) :
    PathsAgree canonical hasIndex first second h (steps + 1) o key value strict memory ↔
      ¬ViewsUninitialized canonical h o key := by
  unfold PathsAgree setWithReceiver
  rw [hkey.objectSetConverting_eq hobject hmemory]
  cases hdescriptor : ownPropertyDescriptor h o key with
  | some descriptor =>
    rw [objectSetWalk_start hkey hdescriptor,
      baseWalk_start hkey.proxy hkey.namespaced hkey.numeric hdescriptor, map_some,
      map_some, rel_some_some]
    exact found_agrees_iff hkey hstored hobject hmemory hdescriptor
  | none =>
    -- The walks go on past the receiver.
    refine iff_of_true ?_ (not_viewsUninitialized fun descriptor hsome => ?_)
    · have halike := walks_alike canonical hasIndex h o key value strict (steps + 1) (.object o)
      have hinherited := @objectSetWalk_inherited canonical hasIndex h o key value (steps + 1)
        strict hdescriptor (.object o)
      cases hdirect : objectSetWalk canonical hasIndex h o key value strict (steps + 1)
          (.object o) with
      | none =>
        rw [hdirect] at halike
        cases hgeneric : baseWalk canonical hasIndex h key value (.object o) (steps + 1)
            (.object o) with
        | none => exact .none
        | some walk =>
          rw [hgeneric] at halike
          cases halike
      | some walk =>
        rw [hdirect] at halike
        cases hgeneric : baseWalk canonical hasIndex h key value (.object o) (steps + 1)
            (.object o) with
        | none =>
          rw [hgeneric] at halike
          cases halike
        | some base =>
          rw [hgeneric, rel_some_some] at halike
          rw [map_some, map_some, rel_some_some]
          rcases hinherited hdirect with rfl | ⟨outcome, rfl⟩
          · cases halike
            have hreceiver : setReceiver canonical first second h key value memory (.object o) =
                defineDataConverting canonical first second h o key value
                  ⟨true, true, true, false⟩ false memory := by
              unfold setReceiver
              dsimp only
              rw [if_neg hkey.proxy, hdescriptor]
            rw [hreceiver]
            exact setAbsent_agrees hkey hmemory hdescriptor hstored
          · cases halike with
            | answered hreport => exact ⟨fun _ => rfl, fun _ => rfl, hreport⟩
    · rw [hdescriptor] at hsome
      cases hsome

end

/-! ## The other keys -/

lemma functionPrototype_descriptor
    (hprototype : (functionHasPrototypeProperty (h.object o) && key = prototypeKey) = true) :
    ownPropertyDescriptor h o key =
      some (.data (h.object o).prototypeObject
        ⟨false, false, (h.object o).prototypeWritable, false⟩) ∧
      legacyLiveKey (h.object o) key = none := by
  have hkey : key = prototypeKey := by simpa using (Bool.and_eq_true_iff.mp hprototype).2
  have hlegacy : legacyLiveKey (h.object o) key = none := by
    unfold legacyLiveKey
    rw [hkey]
    have hcaller : prototypeKey ≠ callerKey := by decide
    have harguments : prototypeKey ≠ argumentsKey := by decide
    simp [hcaller, harguments]
  refine ⟨?_, hlegacy⟩
  unfold ownPropertyDescriptor legacyDescriptor ownDescriptor
  dsimp only
  rw [hlegacy, map_none, none_or, isSome_none, if_neg Bool.false_ne_true,
    hprototype, if_pos rfl, some_or]

lemma arrayLength_descriptor (hkind : (h.object o).kind = .array) :
    ownPropertyDescriptor h o lengthKey =
      some (.data (lengthNumber (h.object o).arrayLength)
        ⟨false, false, (h.object o).lengthWritable, false⟩) := by
  simp [ownPropertyDescriptor, legacyDescriptor, legacyLiveKey, ownDescriptor,
    functionHasPrototypeProperty, hkind]

section
variable (hobject : ProgramObject h o)
include hobject

/-- The two paths for the `prototype` of a function. -/
lemma functionPrototype_agrees (hnamespace : (h.object o).moduleNamespace = false)
    (hprototype : (functionHasPrototypeProperty (h.object o) && key = prototypeKey) = true) :
    PathsAgree canonical hasIndex first second h (steps + 1) o key value strict memory := by
  obtain ⟨hdescriptor, hlegacy⟩ := functionPrototype_descriptor hprototype
  have hkind : (h.object o).kind = .function := by
    have := (Bool.and_eq_true_iff.mp hprototype).1
    simpa using (Bool.and_eq_true_iff.mp this).1
  have hproxy : (h.object o).kind ≠ .proxy := by simp [hkind]
  have hnumeric : ((h.object o).kind = .typedArray && typedArrayNumericKey canonical key) =
      false := by simp [hkind]
  unfold PathsAgree setWithReceiver
  rw [baseWalk_start hproxy hnamespace hnumeric hdescriptor, map_some]
  have hdirect : setOrdinary canonical hasIndex h (steps + 1) o key value strict memory =
      some (if !(h.object o).prototypeWritable then
          (h, refuseSet strict "Cannot assign to the read-only prototype property." value)
        else (h.setObject o fun function => { function with prototypeObject := value },
          .normal value)) := by
    unfold setOrdinary
    rw [if_neg hproxy, hnamespace, if_neg Bool.false_ne_true, hprototype, if_pos rfl]
    split <;> rfl
  cases hwritable : (h.object o).prototypeWritable with
  | false =>
    rw [hwritable, Bool.not_false, if_pos rfl] at hdirect
    rw [objectSetConverting_eq hobject hdirect (refuseSet_ne _ _ _), rel_some_some]
    have hbase : baseDescriptor h (.object o) value
        (.data (h.object o).prototypeObject ⟨false, false, false, false⟩) =
          .answered (.refused "Cannot assign to a read-only property.") := rfl
    rw [hbase]
    exact .refused h ..
  | true =>
    rw [hwritable, Bool.not_true, if_neg Bool.false_ne_true] at hdirect
    rw [objectSetConverting_eq hobject hdirect Outcome.noConfusion, rel_some_some]
    have hbase : baseDescriptor h (.object o) value
        (.data (h.object o).prototypeObject ⟨false, false, true, false⟩) = .receiver := rfl
    rw [hwritable] at hdescriptor
    rw [hbase]
    rw [setReceiver_writable hproxy hnamespace hdescriptor rfl rfl]
    have hdefine : defineDataConverting canonical first second h o key value
        ⟨false, false, true, false⟩ true memory =
        assigned value (defineFunctionPrototype h o value ⟨false, false, true, false⟩) := by
      unfold defineDataConverting defineDataReported defineDataProperty
      rw [if_neg (by simp [hkind]), if_neg hproxy, hnumeric, if_neg Bool.false_ne_true,
        legacyMaterialize_none hlegacy]
      dsimp only
      rw [hprototype, if_pos rfl]
    dsimp only [Descriptor.data]
    rw [hdefine]
    exact setPrototypeProperty_agrees hwritable

/-- The two paths for the `length` of an array. -/
lemma arrayLength_agrees_iff (hkind : (h.object o).kind = .array)
    (hnamespace : (h.object o).moduleNamespace = false)
    (hstored : WellStored canonical ((toArrayLength first second h).1.object o))
    (hkind' : ((toArrayLength first second h).1.object o).kind = .array) :
    PathsAgree canonical hasIndex first second h (steps + 1) o lengthKey value strict memory ↔
      ¬(strict = true ∧ FreezesAtValue first second h o) := by
  have hdescriptor := arrayLength_descriptor hkind
  have hproxy : (h.object o).kind ≠ .proxy := by simp [hkind]
  have hnumeric : ((h.object o).kind = .typedArray && typedArrayNumericKey canonical lengthKey) =
      false := by simp [hkind]
  have hdirect : setOrdinary canonical hasIndex h (steps + 1) o lengthKey value strict memory =
      some (h, setArrayLength h o value strict false) := by
    unfold setOrdinary
    rw [if_neg hproxy, hnamespace, if_neg Bool.false_ne_true,
      if_neg (by simp [functionHasPrototypeProperty, hkind]), if_pos (by simp [hkind])]
  unfold PathsAgree
  rw [freezesAtValue_iff]
  unfold setWithReceiver
  rw [baseWalk_start hproxy hnamespace hnumeric hdescriptor, map_some]
  cases hwritable : (h.object o).lengthWritable with
  | false =>
    have hrefused : setArrayLength h o value strict false =
        refuseSet strict "Cannot assign to the read-only array length." value := by
      unfold setArrayLength
      rw [hwritable]
      rfl
    rw [hrefused] at hdirect
    rw [objectSetConverting_eq hobject hdirect (refuseSet_ne _ _ _), rel_some_some]
    simp only [Bool.false_eq_true, false_and, and_false, not_false_eq_true, iff_true]
    exact .refused h ..
  | true =>
    have hconverts : setArrayLength h o value strict false = .lengthConversion := by
      unfold setArrayLength
      rw [hwritable]
      rfl
    have hbase : baseDescriptor h (.object o) value
        (.data (lengthNumber (h.object o).arrayLength) ⟨false, false, true, false⟩) =
          .receiver := rfl
    rw [hwritable] at hdescriptor
    rw [hbase]
    rw [setReceiver_writable hproxy hnamespace hdescriptor rfl rfl]
    unfold objectSetConverting defineDataConverting
    rw [hobject.objectSet_eq, hdirect, hconverts, map_some, if_pos (by simp [hkind]),
      rel_some_some]
    dsimp only [Descriptor.data]
    generalize toArrayLength first second h = after at *
    obtain ⟨h', outcome | requested⟩ := after
    · simp only [Prod.mk.injEq, reduceCtorEq, and_false, false_and, exists_false,
        not_false_eq_true, iff_true]
      exact .refl ..
    · simp only [Prod.mk.injEq, Except.ok.injEq, true_and, ↓existsAndEq]
      exact setConverted_agrees_iff hstored hkind' requested

/-- A receiver that both paths leave at once, or a key that the walks answer at the receiver. -/
lemma answered_agrees {direct generic : Outcome}
    (hdirect : setOrdinary canonical hasIndex h (steps + 1) o key value strict memory =
      some (h, direct))
    (hconverts : direct ≠ .lengthConversion)
    (hgeneric : baseWalk canonical hasIndex h key value (.object o) (steps + 1) (.object o) =
      some (.answered generic))
    (hreport : ReportsAlike strict value direct generic) :
    PathsAgree canonical hasIndex first second h (steps + 1) o key value strict memory := by
  unfold PathsAgree setWithReceiver
  rw [objectSetConverting_eq hobject hdirect hconverts, hgeneric, map_some,
    rel_some_some]
  exact ⟨fun _ => rfl, fun _ => rfl, hreport⟩

lemma namespace_agrees (hproxy : (h.object o).kind ≠ .proxy)
    (hnamespace : (h.object o).moduleNamespace = true) :
    PathsAgree canonical hasIndex first second h (steps + 1) o key value strict memory := by
  have hdirect : setOrdinary canonical hasIndex h (steps + 1) o key value strict memory =
      some (h, refuseSet strict "Cannot assign to a module namespace property." value) := by
    unfold setOrdinary
    rw [if_neg hproxy, if_pos hnamespace]
  have hgeneric : baseWalk canonical hasIndex h key value (.object o) (steps + 1) (.object o) =
      some (.answered (.refused "Cannot assign to a module namespace property.")) := by
    rw [baseWalk, if_neg hproxy, if_pos hnamespace]
  exact answered_agrees hobject hdirect (refuseSet_ne _ _ _) hgeneric (reportsAlike_refuse ..)

lemma proxy_agrees (hproxy : (h.object o).kind = .proxy) :
    PathsAgree canonical hasIndex first second h (steps + 1) o key value strict memory := by
  have hdirect : setOrdinary canonical hasIndex h (steps + 1) o key value strict memory =
      some (h, .proxyTrap o) := by
    exact if_pos hproxy
  have hgeneric : baseWalk canonical hasIndex h key value (.object o) (steps + 1) (.object o) =
      some (.answered (.proxyTrap o)) := by
    rw [baseWalk]
    exact if_pos hproxy
  exact answered_agrees hobject hdirect Outcome.noConfusion hgeneric (.inl rfl)

/-- A key that the vector does not keep: the index of a TypedArray, or a synthetic key of a
function. -/
lemma special_agrees (hkey : ¬OrdinaryKey canonical (h.object o) key)
    (hproxy : (h.object o).kind ≠ .proxy) (hnamespace : (h.object o).moduleNamespace = false)
    (hprototype : (functionHasPrototypeProperty (h.object o) && key = prototypeKey) = false)
    (hlength : ((h.object o).kind = .array && key = lengthKey) = false) :
    PathsAgree canonical hasIndex first second h (steps + 1) o key value strict memory := by
  have hordinary : setOrdinary canonical hasIndex h (steps + 1) o key value strict memory =
      (objectSetWalk canonical hasIndex h o key value strict (steps + 1) (.object o)).map
        (setWalked canonical h o key value strict memory) := by
    unfold setOrdinary
    rw [if_neg hproxy, hnamespace, if_neg Bool.false_ne_true, hprototype,
      if_neg Bool.false_ne_true, hlength, if_neg Bool.false_ne_true]
    congr 1
  by_cases hnumeric : ((h.object o).kind = .typedArray && typedArrayNumericKey canonical key) = true
  · have hdirect : setOrdinary canonical hasIndex h (steps + 1) o key value strict memory =
        some (h, .typedArrayElement o) := by
      rw [hordinary, objectSetWalk, if_neg hproxy, hnamespace, if_neg Bool.false_ne_true,
        if_pos hnumeric, if_pos rfl]
      rfl
    have hgeneric : baseWalk canonical hasIndex h key value (.object o) (steps + 1) (.object o) =
        some (.answered (.typedArrayElement o)) := by
      rw [baseWalk, if_neg hproxy, hnamespace, if_neg Bool.false_ne_true, if_pos hnumeric,
        if_pos rfl]
    exact answered_agrees hobject hdirect Outcome.noConfusion hgeneric (.inl rfl)
  · -- The synthetic `caller` and `arguments` are read-only.
    rw [Bool.not_eq_true] at hnumeric
    have hlegacy : legacyLiveKey (h.object o) key ≠ none := fun hlegacy =>
      hkey ⟨hproxy, hnamespace, hnumeric, hlegacy, hprototype, hlength⟩
    obtain ⟨live, hlive⟩ := ne_none_iff_exists'.mp hlegacy
    obtain ⟨descriptor, hdescriptor, haccessor, hwritable⟩ : ∃ descriptor,
        ownPropertyDescriptor h o key = some descriptor ∧
          descriptor.attributes.accessor = false ∧ descriptor.attributes.writable = false := by
      unfold ownPropertyDescriptor legacyDescriptor
      rw [hlive, map_some, some_or]
      exact ⟨_, rfl, rfl, rfl⟩
    have hdirect : setOrdinary canonical hasIndex h (steps + 1) o key value strict memory =
        some (h, refuseSet strict "Cannot assign to a read-only property." value) := by
      rw [hordinary, objectSetWalk, if_neg hproxy, hnamespace, if_neg Bool.false_ne_true,
        hnumeric, if_neg Bool.false_ne_true, hdescriptor]
      dsimp only
      unfold setDescriptor
      rw [haccessor, hwritable]
      rfl
    have hgeneric : baseWalk canonical hasIndex h key value (.object o) (steps + 1) (.object o) =
        some (.answered (.refused "Cannot assign to a read-only property.")) := by
      rw [baseWalk_start hproxy hnamespace hnumeric hdescriptor]
      unfold baseDescriptor
      rw [haccessor, hwritable]
      rfl
    exact answered_agrees hobject hdirect (refuseSet_ne _ _ _) hgeneric (reportsAlike_refuse ..)

end

/-- The two paths for every key of an object that is stored well. -/
lemma paths_agree_iff (hstored : WellStored canonical (h.object o)) (hobject : ProgramObject h o)
    (hmemory : memory.Fails)
    (hstored' : WellStored canonical ((toArrayLength first second h).1.object o))
    (hkind' : (h.object o).kind = .array →
      ((toArrayLength first second h).1.object o).kind = .array) :
    PathsAgree canonical hasIndex first second h (steps + 1) o key value strict memory ↔
      ¬(FreezesAssigned first second h o key strict ∨ ViewsUninitialized canonical h o key) := by
  by_cases hkey : OrdinaryKey canonical (h.object o) key
  · have hfrozen : ¬FreezesAssigned first second h o key strict := by
      rintro ⟨hkind, -, rfl, -⟩
      have := hkey.length
      simp [hkind] at this
    rw [ordinary_agrees_iff hkey hstored hobject hmemory, or_iff_right hfrozen]
  have hviews : ¬ViewsUninitialized canonical h o key := fun hviews => hkey hviews.1
  rw [or_iff_left hviews]
  by_cases hproxy : (h.object o).kind = .proxy
  · refine iff_of_true (proxy_agrees hobject hproxy) ?_
    rintro ⟨hkind, -⟩
    rw [hproxy] at hkind
    cases hkind
  cases hnamespace : (h.object o).moduleNamespace with
  | true =>
    refine iff_of_true (namespace_agrees hobject hproxy hnamespace) ?_
    rintro ⟨-, hother, -⟩
    rw [hnamespace] at hother
    cases hother
  | false =>
    by_cases hlength : (h.object o).kind = .array ∧ key = lengthKey
    · obtain ⟨hkind, rfl⟩ := hlength
      rw [arrayLength_agrees_iff hobject hkind hnamespace hstored' (hkind' hkind)]
      unfold FreezesAssigned
      simp [hkind, hnamespace]
    refine iff_of_true ?_ fun hfrozen => hlength ⟨hfrozen.1, hfrozen.2.2.1⟩
    cases hprototype : (functionHasPrototypeProperty (h.object o) && key = prototypeKey) with
    | true => exact functionPrototype_agrees hobject hnamespace hprototype
    | false =>
      exact special_agrees hobject hkey hproxy hnamespace hprototype (by simpa using hlength)

/-! ## Runs -/

/-- In every run, the direct path of an assignment ends as the generic path does, but where strict
code assigns the length that the conversions made read-only, and at a view of a binding without
a value. -/
theorem objectSet_agrees_iff (run : Steps (Step canonical) Heap.empty operations h)
    (hobject : ProgramObject h o) (hmemory : memory.Fails) (hfirst : first.Runs canonical)
    (hsecond : second.Runs canonical) (hasIndex : ℕ → PropertyKey → Bool) (steps : ℕ)
    (key : PropertyKey) (value : Value) (strict : Bool) :
    PathsAgree canonical hasIndex first second h (steps + 1) o key value strict memory ↔
      ¬(FreezesAssigned first second h o key strict ∨ ViewsUninitialized canonical h o key) := by
  obtain ⟨converted, hrun⟩ := toArrayLength_run hfirst hsecond h
  have hshapes := Heap.empty_shapes.run run
  exact paths_agree_iff (hshapes.stored o) hobject hmemory ((hshapes.run hrun).stored o)
    fun hkind => kind_array_run hkind (Heap.Created.run run) hrun

/-! ## An array of two elements -/

/-- Every allocation succeeds. -/
def ampleMemory : Memory := ⟨fun _ => .ok 0, true, .ok (), .ok .undefined⟩

lemma ampleMemory_fails : ampleMemory.Fails := fun _ _ herror => by cases herror

lemma programObject_newArray :
    ProgramObject (Heap.empty.create (newArray .null 2)) 0 where
  named := by rintro ⟨⟩
  replaced := by rintro key virtual ⟨⟩
  resolvable := by rintro property ⟨⟩

/-- Its length is assigned to itself, by a value whose conversion makes it read-only. -/
theorem objectSet_agrees_newArray :
    let array := Heap.empty.create (newArray .null 2)
    let convert := freezingConversion 0 2
    PathsAgree (fun _ => false) (fun _ _ => false) convert convert array 1 0 lengthKey (.object 1)
        false ampleMemory ↔
      ¬(FreezesAssigned convert convert array 0 lengthKey false ∨
        ViewsUninitialized (fun _ => false) array 0 lengthKey) :=
  objectSet_agrees_iff (.single (.arrayCreate .empty .null 2 (by decide)))
    programObject_newArray ampleMemory_fails (freezingConversion_runs 0 2)
    (freezingConversion_runs 0 2) _ 0 lengthKey (.object 1) false

/-- In strict code the direct path throws, and the generic path succeeds. -/
theorem objectSet_disagrees :
    let array := Heap.empty.create (newArray .null 2)
    let convert := freezingConversion 0 2
    (∃ operations, Steps (Step fun _ => false) .empty operations array) ∧
      ProgramObject array 0 ∧ ampleMemory.Fails ∧ convert.Runs (fun _ => false) ∧
      ¬PathsAgree (fun _ => false) (fun _ _ => false) convert convert array 1 0 lengthKey
        (.object 1) true ampleMemory := by
  have hrun : Steps (Step fun _ => false) .empty _ (Heap.empty.create (newArray .null 2)) :=
    .single (.arrayCreate .empty .null 2 (by decide))
  have hruns : (freezingConversion 0 2).Runs fun _ => false := freezingConversion_runs 0 2
  refine ⟨⟨_, hrun⟩, programObject_newArray, ampleMemory_fails, hruns, ?_⟩
  obtain ⟨_, hconverted⟩ := toArrayLength_run hruns hruns (Heap.empty.create (newArray .null 2))
  have hafter := hrun.trans hconverted
  rw [arrayLength_agrees_iff programObject_newArray rfl rfl
    ((Heap.empty_shapes.run hafter).stored 0) rfl, not_not]
  exact ⟨rfl, freezesAtValue_freezing⟩

end Oseo.PropertyStorage
