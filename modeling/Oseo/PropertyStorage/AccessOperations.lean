import Oseo.PropertyStorage.DefinitionOperations

/-!
# Changes of writes

What [[Set]], [[SetPrototypeOf]] and the properties of a String wrapper change, and that every
step of a program changes one object.
-/

namespace Oseo.PropertyStorage

open Nat
open Option

variable {canonical : List ℕ → Bool} {hasIndex : ℕ → PropertyKey → Bool} {h h' : Heap} {o : ℕ}
  {object object' : OseoOrdinaryObject} {key : PropertyKey} {value : Value}
  {property : OseoProperty} {slot index steps : ℕ} {strict : Bool} {memory : Memory}
  {outcome : Outcome}

/-! ## A write in place -/

/-- A value of a program in place of another value keeps the layout. -/
lemma SameLayout.set_value (hget : object.properties[index]? = some property)
    (hplain : cellBackedProperty object property.value = false) (hvalue : value.isCell = false) :
    SameLayout object (redefineProperty object index { property with value }) where
  shape := rfl
  slots slot property' hslot := by
    change (object.properties.set index { property with value })[slot]? = _ at hslot
    rw [List.getElem?_set] at hslot
    split at hslot
    · next heq =>
      subst heq
      split at hslot
      · cases hslot
        refine ⟨property, hget, rfl, rfl, ?_⟩
        rw [hplain]
        simp [cellBackedProperty, hvalue]
      · cases hslot
    · exact ⟨property', hslot, rfl, rfl, rfl⟩

lemma setSlot_changes (hvalue : value.isCell = false) :
    Alters canonical h (setSlot h o index value).1 o := by
  unfold setSlot
  split
  · exact .refl h o
  · next property hget =>
    split
    · have hwritten := cellSet_objects (h := h) property.value value
      exact .of_objects hwritten.1 hwritten.2.1 hwritten.2.2
    · next hplain =>
      have hlayout := SameLayout.set_value hget (Bool.eq_false_iff.mpr hplain) hvalue
      exact @Alters.of_layout canonical h o
        (fun object => redefineProperty object index { property with value }) rfl
        (fun hstored => hstored.redefine hget rfl) (fun hdict => hdict) hlayout

/-! ## An append -/

/-- Where the walk finds no own property, the receiver has none. -/
lemma objectSetWalk_absent
    (hwalk : objectSetWalk canonical hasIndex h o key value strict steps (.object o) =
      some .absent) :
    ((h.object o).kind = .typedArray && typedArrayNumericKey canonical key) = false ∧
      legacyLiveKey (h.object o) key = none ∧
      (WellStored canonical (h.object o) → scanProperties (h.object o) key = none) := by
  cases steps with
  | zero => cases hwalk
  | succ steps =>
    rw [objectSetWalk] at hwalk
    split at hwalk
    · cases hwalk
    · split at hwalk
      · cases hwalk
      · split at hwalk
        · rw [if_pos rfl] at hwalk
          cases hwalk
        · next hnumeric =>
          refine ⟨Bool.eq_false_iff.mpr hnumeric, ?_⟩
          split at hwalk
          · next descriptor hdescriptor =>
            -- A descriptor of the receiver that is answered otherwise.
            rw [some.injEq] at hwalk
            unfold setDescriptor at hwalk
            split at hwalk
            · split at hwalk <;> cases hwalk
            · split at hwalk
              · cases hwalk
              · next hwritable =>
                refine ⟨?_, fun hstored => ?_⟩
                · cases hlive : legacyLiveKey (h.object o) key with
                  | none => rfl
                  | some live =>
                    exfalso
                    unfold ownPropertyDescriptor legacyDescriptor at hdescriptor
                    rw [hlive, map_some, some_or] at hdescriptor
                    cases hdescriptor
                    simp [Descriptor.data] at hwritable
                · rw [← hstored.ownPropertyIndex_eq_scan]
                  split at hwalk
                  · assumption
                  · rw [if_pos rfl] at hwalk
                    cases hwalk
          · next hdescriptor =>
            unfold ownPropertyDescriptor at hdescriptor
            rw [or_eq_none_iff, or_eq_none_iff] at hdescriptor
            obtain ⟨hlegacy, hown, -⟩ := hdescriptor
            unfold legacyDescriptor at hlegacy
            rw [map_eq_none_iff] at hlegacy
            refine ⟨hlegacy, fun hstored => ?_⟩
            unfold ownDescriptor at hown
            rw [if_neg (by simp [hlegacy])] at hown
            split at hown
            · cases hown
            · split at hown
              · cases hown
              · rw [map_eq_none_iff] at hown
                rw [← hstored.ownPropertyIndex_eq_scan]
                cases hindex : ownPropertyIndex (h.object o) key with
                | none => rfl
                | some found =>
                  obtain ⟨property, hget, -⟩ := hstored.lookup_some hindex
                  rw [hindex, bind_some, hget] at hown
                  cases hown

lemma setAbsent_changes
    (habsent : WellStored canonical (h.object o) → scanProperties (h.object o) key = none)
    (hfree : reserved canonical (h.object o) key = false) :
    Alters canonical h (setAbsent h o key value strict memory).1 o := by
  unfold setAbsent
  dsimp only
  split
  · exact .refl h o
  · split
    · exact .refl h o
    · split
      · exact .refl h o
      · next key' hlocal =>
        split
        · exact .refl h o
        · next grown hgrow =>
          apply Alters.of_shape (appendProperty_kind hgrow _ _)
          intro hstored
          obtain ⟨hequal, hsame⟩ := localSymbol_ok hlocal
          obtain ⟨capacity, rfl⟩ := growProperties_ok hgrow
          have hgrown : WellStored canonical { h.object o with propertyCapacity := capacity } :=
            hstored.of_core rfl
          refine @WellStored.append _ _ ⟨⟨true, true, true, false⟩, key', value, .undefined,
            .undefined⟩ hgrown ?_ ?_ false
          · exact scan_none_of_equal (habsent hstored) hequal
          · exact (hsame _).trans hfree

/-! ## [[Set]] -/

lemma setOrdinary_changes (hvalue : value.isCell = false)
    (hset : setOrdinary canonical hasIndex h steps o key value strict memory =
      some (h', outcome)) : Alters canonical h h' o := by
  unfold setOrdinary at hset
  dsimp only at hset
  split at hset
  · cases hset
    exact .refl h o
  · split at hset
    · cases hset
      exact .refl h o
    · split at hset
      · split at hset
        · cases hset
          exact .refl h o
        · cases hset
          exact .of_core rfl
      · next hprototype =>
        split at hset
        · cases hset
          exact .refl h o
        · next hlength =>
          rw [map_eq_some_iff] at hset
          obtain ⟨walk, hwalk, hset⟩ := hset
          cases walk with
          | answered outcome =>
            cases hset
            exact .refl h o
          | slot index =>
            have hchange := @setSlot_changes canonical h o value index hvalue
            dsimp only at hset
            rw [hset] at hchange
            exact hchange
          | virtual attributes =>
            have hchange := @defineDataReported_changes canonical h o key value attributes true
              false (.ok 0) memory
            dsimp only at hset
            split at hset
            · next heq =>
              cases hset
              rw [heq] at hchange
              exact hchange
            · next heq =>
              cases hset
              rw [heq] at hchange
              exact hchange
            · rw [hset] at hchange
              exact hchange
          | absent =>
            obtain ⟨hnumeric, hlegacy, habsent⟩ := objectSetWalk_absent hwalk
            have hchange := @setAbsent_changes canonical h o key value strict memory habsent (by
                simp only [Bool.not_eq_true] at hprototype hlength
                simp only [reserved, hprototype, hlength, hlegacy, hnumeric, isSome_none,
                  Bool.or_self])
            dsimp only at hset
            rw [hset] at hchange
            exact hchange

lemma objectSet_changes (hvalue : value.isCell = false)
    (hset : objectSet canonical hasIndex h steps o key value strict memory =
      some (h', outcome)) : Alters canonical h h' o := by
  unfold objectSet at hset
  dsimp only at hset
  split at hset
  · next property hproperty =>
    split at hset
    · cases hset
      exact .refl h o
    · split at hset
      · cases hset
        exact .refl h o
      · have hwritten := cellSet_objects (h := h) property.value value
        rw [some.injEq] at hset
        rw [hset] at hwritten
        exact .of_objects hwritten.1 hwritten.2.1 hwritten.2.2
  · exact setOrdinary_changes hvalue hset

/-! ## [[SetPrototypeOf]] -/

lemma setPrototype_changes {prototype : Value}
    (hset : setPrototype h steps o prototype = some (h', outcome)) :
    Alters canonical h h' o := by
  unfold setPrototype at hset
  dsimp only at hset
  split at hset
  · cases hset
    exact .refl h o
  · split at hset
    · cases hset
      exact .refl h o
    · split at hset
      · cases hset
        exact .refl h o
      · split at hset
        · cases hset
          exact .refl h o
        · rw [map_eq_some_iff] at hset
          obtain ⟨cyclic, -, hset⟩ := hset
          split at hset
          · cases hset
            exact .refl h o
          · cases hset
            exact .of_dictionary rfl fun hstored => hstored.of_core rfl

/-! ## String wrappers -/

/-- The keys of a wrapper are the indices that have been written. -/
def WrapperKeys (object : OseoOrdinaryObject) (count : ℕ) : Prop :=
  object.kind = .object ∧ ∀ key ∈ object.keys, ∃ i < count, key = arrayIndexKey i

/-- The digits of an index are no letters. -/
lemma arrayIndexKey_ne_length (i : ℕ) : arrayIndexKey i ≠ lengthKey := by
  intro heq
  have hunits : decimalUnits i = [0x6c, 0x65, 0x6e, 0x67, 0x74, 0x68] :=
    PropertyKey.string.inj heq
  have hmem : 0x6c ∈ decimalUnits i := by
    rw [hunits]
    exact List.mem_cons_self
  have := decimalUnits_range hmem
  omega

/-- A string key that no key is. -/
lemma scan_none_of_string {units : List ℕ} (hne : ∀ key ∈ object.keys, key ≠ .string units) :
    scanProperties object (.string units) = none := by
  rw [scanProperties_eq_none]
  intro stored hmem
  rw [Bool.eq_false_iff]
  exact fun hequal => hne stored hmem (propertyKeyEqual_string.mp hequal)

lemma WrapperKeys.length_absent {count : ℕ} (hkeys : WrapperKeys object count) :
    scanProperties object lengthKey = none := by
  apply scan_none_of_string
  rintro key hmem rfl
  obtain ⟨i, -, heq⟩ := hkeys.2 _ hmem
  exact arrayIndexKey_ne_length i heq.symm

lemma WrapperKeys.index_absent {count : ℕ} (hkeys : WrapperKeys object count) :
    scanProperties object (arrayIndexKey count) = none := by
  apply scan_none_of_string
  rintro key hmem rfl
  obtain ⟨i, hlt, heq⟩ := hkeys.2 _ hmem
  have := decimalUnits_injective (PropertyKey.string.inj heq)
  omega

/-- A vector that cannot grow is a failure of the runtime. -/
lemma growProperties_error (hgrow : growProperties object memory = .error outcome) :
    ∃ message, outcome = .failure "OSEO2001" message := by
  unfold growProperties at hgrow
  dsimp only at hgrow
  generalize (if object.propertyCapacity = 0 then 4
    else object.propertyCapacity * 2 % (sizeMax + 1)) = capacity at hgrow
  split at hgrow
  · cases hgrow
  · split at hgrow
    · cases hgrow
      exact ⟨_, rfl⟩
    · split at hgrow
      · cases hgrow
        exact ⟨_, rfl⟩
      · cases hgrow

/-- An append adds its key to those of the wrapper. -/
lemma WrapperKeys.append {count : ℕ} {units : List ℕ} {attributes : OseoPropertyAttributes}
    {appended : Value} (hkeys : WrapperKeys (h.object o) count)
    (hkey : arrayIndexKey count = .string units)
    (happend : appendOwnProperty h o (.string units) value attributes memory =
      (h', .normal appended)) : WrapperKeys (h'.object o) (count + 1) := by
  unfold appendOwnProperty localSymbol at happend
  dsimp only at happend
  split at happend
  · next outcome hgrow =>
    obtain ⟨message, rfl⟩ := growProperties_error hgrow
    cases happend
  · next grown hgrow =>
    cases happend
    obtain ⟨capacity, rfl⟩ := growProperties_ok hgrow
    rw [newShape_self, setObject_self]
    obtain ⟨base, count', known, heq⟩ := insertProperty_eq
      { h.object o with propertyCapacity := capacity } (h.object o).properties.length
      ⟨attributes, .string units, value, .undefined, .undefined⟩
    rw [heq]
    refine ⟨hkeys.1, fun key hmem => ?_⟩
    change key ∈ List.map _ _ at hmem
    rw [keys_insertIdx] at hmem
    have hle : (h.object o).properties.length ≤ (h.object o).keys.length := by rw [length_keys]
    rcases List.mem_cons.mp ((List.perm_insertIdx _ _ hle).mem_iff.mp hmem) with rfl | hold
    · exact ⟨count, lt_succ_self _, hkey.symm⟩
    · obtain ⟨i, hlt, hi⟩ := hkeys.2 key hold
      exact ⟨i, by omega, hi⟩

/-- A definition on a wrapper that is not new. -/
lemma defineWrapperProperty_changes (attributes : OseoPropertyAttributes) :
    Alters canonical h
      (defineWrapperProperty canonical false h o key value attributes memory).1 o := by
  have hchange := @defineDataReported_changes canonical h o key value attributes true false
    (.ok 0) memory
  unfold defineWrapperProperty
  rw [if_neg (by simp)]
  split
  · next heq =>
    rw [heq] at hchange
    exact hchange
  · exact hchange

/-- The definitions of a wrapper, one after the other. -/
lemma stringWrapperFrom_changes (append : Bool) (memory : ℕ → Memory) (units : List ℕ)
    (hkeys : append = true → WrapperKeys (h.object o) index) :
    Alters canonical h (stringWrapperFrom canonical append o memory index units h).1 o := by
  induction units generalizing h index with
  | nil =>
    rw [stringWrapperFrom]
    cases append with
    | false => exact defineWrapperProperty_changes _
    | true =>
      unfold defineWrapperProperty
      rw [if_pos rfl]
      exact appendOwnProperty_changes _ _ (fun _ => (hkeys rfl).length_absent) (hkeys rfl).1
  | cons unit rest ih =>
    rw [stringWrapperFrom]
    split
    · exact .refl h o
    · have hchange : Alters canonical h (defineWrapperProperty canonical append h o
          (arrayIndexKey index) (.string [unit]) ⟨false, true, false, false⟩ (memory index)).1
          o := by
        cases append with
        | false => exact defineWrapperProperty_changes _
        | true =>
          unfold defineWrapperProperty
          rw [if_pos rfl]
          exact appendOwnProperty_changes _ _ (fun _ => (hkeys rfl).index_absent) (hkeys rfl).1
      split
      · next h₁ defined hdefine =>
        rw [hdefine] at hchange
        refine hchange.trans (ih fun happend => ?_)
        subst happend
        exact (hkeys rfl).append rfl hdefine
      · exact hchange

lemma stringWrapperProperties_changes (units : List ℕ) (memory : ℕ → Memory)
    (hkind : (h.object o).kind = .object) :
    Alters canonical h (stringWrapperProperties canonical h o units memory).1 o := by
  apply stringWrapperFrom_changes
  intro happend
  unfold stringWrapperMayAppend at happend
  simp only [Bool.and_eq_true, List.isEmpty_iff] at happend
  refine ⟨hkind, fun key hmem => ?_⟩
  unfold OseoOrdinaryObject.keys at hmem
  rw [happend.2, List.map_nil] at hmem
  exact absurd hmem List.not_mem_nil

/-! ## Steps -/

/-- A new object is well stored. -/
lemma Changes.create {object : OseoOrdinaryObject} (hproperties : object.properties = [])
    (hcount : object.denseIndexCount = 0) (hlength : object.arrayLength ≤ uint32Max)
    (hproxy : object.kind = .proxy → object.dictionary = true) :
    Changes canonical h (h.create object) h.nextObject := by
  have hself : (h.create object).object h.nextObject =
      { object with shapeId := h.nextShapeId } := Function.update_self ..
  have hkeys : object.keys = [] := by
    unfold OseoOrdinaryObject.keys
    rw [hproperties, List.map_nil]
  have hnone : ∀ key, key ∉ object.keys := by
    intro key hmem
    rw [hkeys] at hmem
    exact absurd hmem List.not_mem_nil
  refine ⟨fun o' hne => Function.update_of_ne hne .., le_succ _, ?_, ?_, ?_, ?_⟩
  · rw [hself]
    exact .inr ⟨le_refl _, lt_succ_self _⟩
  · rw [hself]
    intro _
    refine .newShape ⟨?_, ?_, ?_, hlength, ?_, hproxy⟩ _
    · rw [hkeys]
      exact List.Pairwise.nil
    · intro _
      rw [hkeys, hcount]
      exact (@Library.DenseRun.nil _ arrayIndex 0).move _
    · exact fun _ key hmem => absurd hmem (hnone key)
    · exact fun key hmem => absurd hmem (hnone key)
  · rw [hself]
    exact fun _ => .inr (le_refl _)
  · rw [hself]
    exact .inr (.inl (le_refl _))

/-- A write that puts the object in dictionary mode under its shape identifier. -/
lemma Changes.of_dictionary_mode {f : OseoOrdinaryObject → OseoOrdinaryObject}
    (hshape : (f (h.object o)).shapeId = (h.object o).shapeId ∧
      (f (h.object o)).dictionary = true)
    (hstored : WellStored canonical (h.object o) → WellStored canonical (f (h.object o))) :
    Changes canonical h (h.setObject o f) o := by
  refine ⟨fun _ hne => setObject_of_ne hne f, le_refl _, ?_, ?_, ?_, ?_⟩
  · rw [setObject_self]
    exact .inl hshape.1
  · rw [setObject_self]
    exact hstored
  · rw [setObject_self]
    exact fun _ => .inl hshape.2
  · rw [setObject_self]
    exact .inl hshape.2

/-- A step changes one object that is there, or creates one. -/
lemma Step.alters {operation : Operation} (hstep : Step canonical h operation h') :
    (∃ o, Alters canonical h h' o) ∨
      ∃ object, h' = h.create object ∧ Changes canonical h h' h.nextObject := by
  cases hstep with
  | objectCreate =>
    exact .inr ⟨_, rfl, .create rfl rfl (zero_le _) (fun hkind => by cases hkind)⟩
  | arrayCreate _ _ _ hlength =>
    exact .inr ⟨_, rfl, .create rfl rfl hlength (fun hkind => by cases hkind)⟩
  | functionCreate =>
    exact .inr ⟨_, rfl, .create rfl rfl (zero_le _) (fun hkind => by cases hkind)⟩
  | proxyCreate => exact .inr ⟨_, rfl, .create rfl rfl (zero_le _) (fun _ => rfl)⟩
  | typedArrayCreate =>
    exact .inr ⟨_, rfl, .create rfl rfl (zero_le _) (fun hkind => by cases hkind)⟩
  | exoticCreate =>
    exact .inr ⟨_, rfl, .create rfl rfl (zero_le _) (fun hkind => by cases hkind)⟩
  | set _ _ o key value _ _ hset => exact .inl ⟨o, objectSet_changes value.2 hset⟩
  | setLength _ o value requested strict _ =>
    refine .inl ⟨o, setArrayLengthConverted_changes value ?_ strict false⟩
    unfold uint32Max
    omega
  | append _ o value memory => exact .inl ⟨o, arrayAppend_changes value memory⟩
  | appendHole _ o => exact .inl ⟨o, arrayAppendHole_changes⟩
  | defineData _ o key value attributes hasValue absentWritable converted memory =>
    exact .inl ⟨o, defineDataReported_changes value attributes hasValue absentWritable converted memory⟩
  | defineAccessor _ o key getter setter hasGetter hasSetter attributes memory =>
    exact .inl ⟨o, defineAccessorReported_changes getter setter hasGetter hasSetter attributes memory⟩
  | delete hasIndex _ o key strict => exact .inl ⟨o, objectDelete_changes hasIndex strict⟩
  | materialize o key memory hmaterialize => exact .inl ⟨o, legacyMaterialize_changes hmaterialize⟩
  | setPrototype _ o prototype hset => exact .inl ⟨o, setPrototype_changes hset⟩
  | relinkPrototype _ o prototype =>
    exact .inl ⟨o, .of_shape rfl fun hstored => hstored.of_core rfl⟩
  | wrapString _ o units memory hwrapper =>
    exact .inl ⟨o, stringWrapperProperties_changes units memory hwrapper⟩
  | restrict _ o taken => exact .inl ⟨o, .of_core rfl⟩
  | fixPrototype _ o => exact .inl ⟨o, .of_core rfl⟩
  | linkPrototypeObject _ o value => exact .inl ⟨o, .of_core rfl⟩
  | sealNamespace _ o =>
    refine .inl ⟨o, .of_dictionary_mode ⟨rfl, rfl⟩ fun hstored => ?_,
      .setObject rfl⟩
    exact hstored.congr rfl rfl rfl rfl rfl rfl (fun _ hfree => hfree) fun _ => rfl
  | markStringPrototype _ o =>
    exact .inl ⟨o, (@Alters.of_core canonical h o PropertyStorage.markStringPrototype rfl).congr rfl rfl rfl rfl rfl rfl⟩
  | declareGlobalFunction _ o index hproperty _ =>
    exact .inl ⟨o, .of_dictionary rfl fun hstored => hstored.set hproperty rfl⟩
  | putGlobalLexicals _ o =>
    have hchange : Alters canonical h
        (h.setObject o fun object => { object with dictionary := true }) o :=
      ⟨.of_dictionary_mode ⟨rfl, rfl⟩ fun hstored => hstored.newDictionary,
        .setObject rfl⟩
    exact .inl ⟨o, hchange.congr rfl rfl rfl rfl rfl rfl⟩
  | bind => exact .inl ⟨0, .of_objects rfl rfl rfl⟩

/-- Every step changes one object. -/
theorem Step.changes {operation : Operation} (hstep : Step canonical h operation h') :
    ∃ o, Changes canonical h h' o := by
  rcases hstep.alters with ⟨o, halters⟩ | ⟨object, -, hchange⟩
  · exact ⟨o, halters.toChanges⟩
  · exact ⟨_, hchange⟩

end Oseo.PropertyStorage
