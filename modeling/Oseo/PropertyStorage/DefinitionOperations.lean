import Oseo.PropertyStorage.ChangeTheorems

/-!
# Changes of arrays

What the truncation of an array and the appends change.
-/

namespace Oseo.PropertyStorage

open List

variable {canonical : List ℕ → Bool} {h h' : Heap} {o : ℕ} {object object' : OseoOrdinaryObject}
  {key : PropertyKey} {property : OseoProperty} {slot index requested rounds : ℕ}
  {memory : Memory}

/-! ## The search for the largest index -/

lemma selectElement_none {selected : Option (ℕ × ℕ)} {properties : List OseoProperty}
    (hselect : selectElement requested index selected properties = none) :
    selected = none ∧ ∀ property ∈ properties, ∀ i, arrayIndex property.key = some i →
      i < requested := by
  induction properties generalizing index selected with
  | nil => exact ⟨hselect, fun _ hmem => absurd hmem not_mem_nil⟩
  | cons property rest ih =>
    rw [selectElement] at hselect
    split at hselect
    · next hkey =>
      obtain ⟨hnone, hrest⟩ := ih hselect
      refine ⟨hnone, forall_mem_cons.mpr ⟨fun i hi => ?_, hrest⟩⟩
      rw [hkey] at hi
      cases hi
    · next propertyIndex hkey =>
      split at hselect
      · obtain ⟨hnone, -⟩ := ih hselect
        cases hnone
      · next hskip =>
        obtain ⟨rfl, hrest⟩ := ih hselect
        refine ⟨rfl, forall_mem_cons.mpr ⟨fun i hi => ?_, hrest⟩⟩
        rw [hkey] at hi
        cases hi
        simpa using hskip

/-- The element that is found is not below the requested length, and no index is above it. -/
lemma selectElement_some {selected : Option (ℕ × ℕ)} {properties : List OseoProperty}
    {found : ℕ × ℕ} (hselect : selectElement requested index selected properties = some found)
    (hselected : ∀ best, selected = some best → requested ≤ best.2 ∧ best.2 < uint32Max) :
    (requested ≤ found.2 ∧ found.2 < uint32Max) ∧
      (∀ best, selected = some best → best.2 ≤ found.2) ∧
      ∀ property ∈ properties, ∀ i, arrayIndex property.key = some i → i ≤ found.2 := by
  induction properties generalizing index selected with
  | nil =>
    obtain rfl : selected = some found := hselect
    refine ⟨hselected found rfl, fun best hbest => ?_, fun _ hmem => absurd hmem not_mem_nil⟩
    cases hbest
    exact Nat.le_refl _
  | cons property rest ih =>
    rw [selectElement] at hselect
    split at hselect
    · next hkey =>
      obtain ⟨hle, hbest, hrest⟩ := ih hselect hselected
      refine ⟨hle, hbest, forall_mem_cons.mpr ⟨fun i hi => ?_, hrest⟩⟩
      rw [hkey] at hi
      cases hi
    · next propertyIndex hkey =>
      split at hselect
      · next hbetter =>
        -- The element of this slot is the best so far.
        simp only [Bool.and_eq_true, decide_eq_true_eq, Option.all_eq_true] at hbetter
        obtain ⟨hle, hbest, hrest⟩ := ih hselect (by
          intro best hbest
          cases hbest
          have := arrayIndex_bound hkey
          refine ⟨hbetter.1, ?_⟩
          show propertyIndex < uint32Max
          unfold uint32Max
          omega)
        have hindex : propertyIndex ≤ found.2 := hbest _ rfl
        refine ⟨hle, fun best hmem => ?_, forall_mem_cons.mpr ⟨fun i hi => ?_, hrest⟩⟩
        · have := hbetter.2 best hmem
          omega
        · rw [hkey] at hi
          cases hi
          exact hindex
      · next hskip =>
        obtain ⟨hle, hbest, hrest⟩ := ih hselect hselected
        refine ⟨hle, hbest, forall_mem_cons.mpr ⟨fun i hi => ?_, hrest⟩⟩
        rw [hkey] at hi
        cases hi
        by_contra hgt
        apply hskip
        simp only [Bool.and_eq_true, decide_eq_true_eq, Option.all_eq_true]
        refine ⟨by omega, fun best hmem => ?_⟩
        have := hbest best hmem
        omega

lemma key_bound {bound : ℕ}
    (hbound : ∀ property ∈ object.properties, ∀ i, arrayIndex property.key = some i →
      i < bound) : ∀ key ∈ object.keys, ∀ i, arrayIndex key = some i → i < bound := by
  intro key hkey i hi
  obtain ⟨property, hmem, rfl⟩ := mem_map.mp hkey
  exact hbound property hmem i hi

/-! ## Removals of a truncation -/

lemma length_removeProperty (hremove : removeProperty object slot = some object') :
    object'.properties.length + 1 = object.properties.length := by
  obtain ⟨property, base, count, known, hget, -, rfl, -⟩ := removeProperty_some hremove
  obtain ⟨hlt, -⟩ := List.getElem?_eq_some_iff.mp hget
  have := List.length_eraseIdx_of_lt hlt
  show (object.properties.eraseIdx slot).length + 1 = _
  omega

/-- Removals write the vector and its hint only. -/
structure SameFlags (object object' : OseoOrdinaryObject) : Prop where
  kind : object'.kind = object.kind
  shape : object'.shapeId = object.shapeId
  dictionary : object'.dictionary = object.dictionary

lemma removeProperty_flags (hremove : removeProperty object slot = some object') :
    SameFlags object object' := by
  obtain ⟨property, base, count, known, -, -, rfl, -⟩ := removeProperty_some hremove
  exact ⟨rfl, rfl, rfl⟩

lemma truncateElements_removed (rounds : ℕ) (object : OseoOrdinaryObject) :
    (truncateElements requested rounds object true).removed = true := by
  induction rounds generalizing object with
  | zero => rfl
  | succ rounds ih =>
    rw [truncateElements]
    split
    · rfl
    · split
      · rfl
      · exact ih _

/-- The descending search leaves a well stored vector, with no index from the requested length on
unless it stops at one. -/
lemma truncateElements_stored (hstored : WellStored canonical object)
    (hrounds : object.properties.length < rounds) (removed : Bool) :
    WellStored canonical (truncateElements requested rounds object removed).array ∧
      ((truncateElements requested rounds object removed).stopped = false →
        ∀ key ∈ (truncateElements requested rounds object removed).array.keys, ∀ i,
          arrayIndex key = some i → i < requested) := by
  induction rounds generalizing object removed with
  | zero => omega
  | succ rounds ih =>
    rw [truncateElements]
    split
    · next hnone =>
      exact ⟨hstored, fun _ => key_bound (selectElement_none hnone).2⟩
    · next selected selectedIndex hsome =>
      split
      · -- A property that cannot be removed is the last one of the array.
        obtain ⟨hlt, -, hbound⟩ := selectElement_some hsome (fun _ hbest => nomatch hbest)
        refine ⟨hstored.relength (fun _ => key_bound fun property hmem i hi => ?_) hlt.2, ?_⟩
        · have hle : i ≤ selectedIndex := hbound property hmem i hi
          omega
        · intro hstopped
          cases hstopped
      · next array hremove =>
        have := length_removeProperty hremove
        exact ih (hstored.remove hremove) (by omega) true

/-- A search that removes nothing changes the length at most. -/
lemma truncateElements_kept
    (hremoved : (truncateElements requested rounds object false).removed = false) :
    ∃ length, (truncateElements requested rounds object false).array =
      { object with arrayLength := length } := by
  cases rounds with
  | zero => exact ⟨_, rfl⟩
  | succ rounds =>
    rw [truncateElements] at hremoved ⊢
    split
    · exact ⟨_, rfl⟩
    · split
      · exact ⟨_, rfl⟩
      · next hsome _ _ hremove =>
        rw [hsome] at hremoved
        dsimp only at hremoved
        rw [hremove] at hremoved
        rw [truncateElements_removed] at hremoved
        cases hremoved

/-! ## The dense truncation -/

/-- What `truncate_dense_elements` checks: slot `i` holds the configurable element `i`. -/
def DenseElements (object : OseoOrdinaryObject) : Prop :=
  ∀ slot property, object.properties[slot]? = some property →
    property.attributes.configurable = true ∧ arrayIndex property.key = some slot

lemma DenseElements.remove_last (hdense : DenseElements object)
    (hpos : 0 < object.properties.length) :
    ∃ object', removeProperty object (object.properties.length - 1) = some object' ∧
      DenseElements object' := by
  have hlt : object.properties.length - 1 < object.properties.length := by omega
  have hget := getElem?_eq_getElem hlt
  have hconfigurable := (hdense _ _ hget).1
  cases hremove : removeProperty object (object.properties.length - 1) with
  | none =>
    exfalso
    unfold removeProperty at hremove
    rw [hget] at hremove
    dsimp only at hremove
    rw [if_neg (by simp [hconfigurable])] at hremove
    repeat' split at hremove
    all_goals cases hremove
  | some object' =>
    refine ⟨object', rfl, ?_⟩
    obtain ⟨property, base, count, known, -, -, rfl, -⟩ := removeProperty_some hremove
    intro slot property hslot
    change (object.properties.eraseIdx _)[slot]? = _ at hslot
    rw [getElem?_eraseIdx] at hslot
    split at hslot
    · exact hdense slot property hslot
    · -- Nothing follows the last slot.
      rw [getElem?_eq_none (by omega)] at hslot
      cases hslot

lemma removeTail_stored (hstored : WellStored canonical object) (hdense : DenseElements object)
    (hrounds : object.properties.length ≤ requested + rounds) :
    WellStored canonical (removeTail requested rounds object) ∧
      ∀ key ∈ (removeTail requested rounds object).keys, ∀ i, arrayIndex key = some i →
        i < requested := by
  have hdone : object.properties.length ≤ requested → ∀ key ∈ object.keys, ∀ i,
      arrayIndex key = some i → i < requested := by
    intro hle
    apply key_bound
    intro property hmem i hi
    obtain ⟨slot, hslot⟩ := List.mem_iff_getElem?.mp hmem
    obtain ⟨hlt, -⟩ := List.getElem?_eq_some_iff.mp hslot
    have hindex := (hdense slot property hslot).2
    rw [hi] at hindex
    cases hindex
    omega
  induction rounds generalizing object with
  | zero => exact ⟨hstored, hdone (by omega)⟩
  | succ rounds ih =>
    rw [removeTail]
    split
    · obtain ⟨object', hremove, hdense'⟩ := hdense.remove_last (by omega)
      have hlength := length_removeProperty hremove
      rw [hremove, Option.getD_some]
      refine ih (hstored.remove hremove) hdense' (by omega) ?_
      intro hle
      apply key_bound
      intro property hmem i hi
      obtain ⟨slot, hslot⟩ := List.mem_iff_getElem?.mp hmem
      obtain ⟨hlt, -⟩ := List.getElem?_eq_some_iff.mp hslot
      have hindex := (hdense' slot property hslot).2
      rw [hi] at hindex
      cases hindex
      omega
    · exact ⟨hstored, hdone (by omega)⟩

lemma truncateDenseElements_stored (hstored : WellStored canonical object)
    (htruncate : truncateDenseElements object requested = some object') :
    WellStored canonical object' ∧
      ∀ key ∈ object'.keys, ∀ i, arrayIndex key = some i → i < requested := by
  unfold truncateDenseElements at htruncate
  split at htruncate
  · cases htruncate
  · split at htruncate
    · next hall =>
      cases htruncate
      refine removeTail_stored hstored ?_ (by omega)
      intro slot property hslot
      obtain ⟨hlt, -⟩ := List.getElem?_eq_some_iff.mp hslot
      have helement := List.all_eq_true.mp hall slot (List.mem_range.mpr hlt)
      rw [hslot] at helement
      simp only [Option.any_some, Bool.and_eq_true, decide_eq_true_eq] at helement
      exact ⟨helement.1.2, helement.2⟩
    · cases htruncate

/-! ## The operations -/

/-- The element an append adds to an array that is not full. -/
lemma WellStored.append_element {value : Value} (hstored : WellStored canonical object)
    (hkind : object.kind = .array) (hlength : object.arrayLength < uint32Max) (capacity : ℕ) :
    WellStored canonical
      { insertProperty { object with propertyCapacity := capacity } object.properties.length
          ⟨⟨true, true, true, false⟩, arrayIndexKey object.arrayLength, value, .undefined,
            .undefined⟩ with
        arrayLength := object.arrayLength + 1 } := by
  have hindex : arrayIndex (arrayIndexKey object.arrayLength) = some object.arrayLength := by
    apply arrayIndex_arrayIndexKey
    unfold uint32Max at hlength
    omega
  have hlonger : WellStored canonical
      { object with propertyCapacity := capacity, arrayLength := object.arrayLength + 1 } := by
    refine .of_core (hstored.relength (fun _ key hkey i hi => ?_) hlength) rfl
    exact Nat.lt_succ_of_lt (hstored.below hkind key hkey i hi)
  rw [insertProperty_length]
  refine hlonger.insert ?_ (reserved_arrayIndex hkind hindex) ?_ (Nat.le_refl _)
  · -- All indices are below the length.
    refine scan_none_of_index hindex fun stored hmem heq => ?_
    have := hstored.below hkind stored hmem _ heq
    omega
  · intro _ i hi
    obtain rfl : object.arrayLength = i := Option.some.inj (hindex.symm.trans hi)
    exact Nat.lt_succ_self _

/-! ## Kinds -/

lemma removeProperty_kind (hremove : removeProperty object slot = some object') :
    object'.kind = object.kind := (removeProperty_flags hremove).kind

lemma getD_removeProperty_kind (object : OseoOrdinaryObject) (slot : ℕ) :
    ((removeProperty object slot).getD object).kind = object.kind := by
  cases hremove : removeProperty object slot with
  | none => rfl
  | some object' => exact removeProperty_kind hremove

lemma removeTail_kind (requested rounds : ℕ) (object : OseoOrdinaryObject) :
    (removeTail requested rounds object).kind = object.kind := by
  induction rounds generalizing object with
  | zero => rfl
  | succ rounds ih =>
    rw [removeTail]
    split
    · rw [ih, getD_removeProperty_kind]
    · rfl

lemma truncateElements_kind (requested rounds : ℕ) (object : OseoOrdinaryObject) (removed : Bool) :
    (truncateElements requested rounds object removed).array.kind = object.kind := by
  induction rounds generalizing object removed with
  | zero => rfl
  | succ rounds ih =>
    rw [truncateElements]
    split
    · rfl
    · split
      · rfl
      · next hremove => rw [ih, removeProperty_kind hremove]

lemma truncateDenseElements_kind (htruncate : truncateDenseElements object requested = some object') :
    object'.kind = object.kind := by
  unfold truncateDenseElements at htruncate
  split at htruncate
  · cases htruncate
  · split at htruncate
    · cases htruncate
      exact removeTail_kind ..
    · cases htruncate

lemma insertProperty_kind (object : OseoOrdinaryObject) (slot : ℕ) (property : OseoProperty) :
    (insertProperty object slot property).kind = object.kind := by
  obtain ⟨base, count, known, heq⟩ := insertProperty_eq object slot property
  rw [heq]

lemma growProperties_kind (hgrow : growProperties object memory = .ok object') :
    object'.kind = object.kind := by
  obtain ⟨capacity, rfl⟩ := growProperties_ok hgrow
  rfl

lemma appendProperty_kind (hgrow : growProperties object memory = .ok object')
    (replacesVirtual : Bool) (property : OseoProperty) :
    (appendProperty object' replacesVirtual property).kind = object.kind :=
  (insertProperty_kind object' _ property).trans (growProperties_kind hgrow)

/-! ## Changes -/

/-- The new length of an array whose indices are below it. -/
lemma finishArrayLength_changes (hkind : object.kind = (h.object o).kind)
    (hrequested : requested ≤ uint32Max)
    (hfinish : WellStored canonical (h.object o) → WellStored canonical object ∧
      (object.kind = .array → ∀ key ∈ object.keys, ∀ i, arrayIndex key = some i →
        i < requested)) :
    Alters canonical h (finishArrayLength h o object requested) o := by
  apply Alters.of_dictionary hkind
  intro hstored
  obtain ⟨hkept, hbelow⟩ := hfinish hstored
  exact hkept.relength hbelow hrequested

lemma setArrayLengthConverted_changes (value : Value) (hrequested : requested ≤ uint32Max)
    (strict allowSameValue : Bool) :
    Alters canonical h (setArrayLengthConverted h o value requested strict allowSameValue).1
      o := by
  unfold setArrayLengthConverted
  dsimp only
  split
  · split <;> exact .refl h o
  · split
    · next hle =>
      apply finishArrayLength_changes rfl hrequested
      refine fun hstored => ⟨hstored, fun hkind key hkey i hi => ?_⟩
      have := hstored.below hkind key hkey i hi
      omega
    · split
      · next truncated htruncate =>
        apply finishArrayLength_changes (truncateDenseElements_kind htruncate) hrequested
        intro hstored
        obtain ⟨hkept, hbelow⟩ := truncateDenseElements_stored hstored htruncate
        exact ⟨hkept, fun _ => hbelow⟩
      · have hspec := fun hstored : WellStored canonical (h.object o) =>
          @truncateElements_stored canonical _ requested _ hstored (Nat.lt_succ_self _) false
        have hkind := truncateElements_kind requested ((h.object o).properties.length + 1)
          (h.object o) false
        split
        · -- An element that stays ends the truncation early.
          dsimp only
          split
          · exact .of_dictionary hkind fun hstored => (hspec hstored).1
          · next hremoved =>
            have hkept := truncateElements_kept (Bool.eq_false_iff.mpr hremoved)
            obtain ⟨length, heq⟩ := hkept
            rw [heq]
            refine .of_layout rfl (fun hstored => ?_) (fun hdict => hdict)
              (.of_properties rfl rfl fun _ => rfl)
            have hkept := (hspec hstored).1
            rw [heq] at hkept
            exact hkept
        · next hstopped =>
          apply finishArrayLength_changes hkind hrequested
          intro hstored
          exact ⟨(hspec hstored).1, fun _ => (hspec hstored).2 (Bool.eq_false_iff.mpr hstopped)⟩

lemma arrayAppend_changes (value : Value) (memory : Memory) :
    Alters canonical h (arrayAppend h o value memory).1 o := by
  unfold arrayAppend
  dsimp only
  split
  · exact .refl h o
  · next hkind =>
    replace hkind : (h.object o).kind = .array := not_not.mp hkind
    split
    · exact .refl h o
    · split
      · exact .refl h o
      · next hfull =>
        split
        · exact .refl h o
        · next grown hgrow =>
          split
          · exact .of_core (f := fun _ => grown) (growProperties_core hgrow)
          · apply Alters.of_shape
              ((insertProperty_kind _ _ _).trans (growProperties_kind hgrow))
            intro hstored
            obtain ⟨capacity, rfl⟩ := growProperties_ok hgrow
            exact hstored.append_element hkind (Nat.lt_of_le_of_ne hstored.bounded hfull) capacity

lemma arrayAppendHole_changes : Alters canonical h (arrayAppendHole h o).1 o := by
  unfold arrayAppendHole
  dsimp only
  split
  · exact .refl h o
  · split
    · exact .refl h o
    · split
      · exact .refl h o
      · next hfull =>
        apply Alters.of_shape rfl
        intro hstored
        have hlt := Nat.lt_of_le_of_ne hstored.bounded hfull
        refine hstored.relength (fun hkind key hkey i hi => ?_) hlt
        exact Nat.lt_succ_of_lt (hstored.below hkind key hkey i hi)

/-! ## Changes of definitions and deletions

What [[DefineOwnProperty]], [[Delete]] and the materialization of legacy keys change.
-/

/-! ## Lookups of a definition -/

lemma found_get
    (hfound : ((ownPropertyIndex object key).bind fun index =>
      object.properties[index]?.map fun property => (index, property)) = some (index, property)) :
    object.properties[index]? = some property := by
  rw [Option.bind_eq_some_iff] at hfound
  obtain ⟨found, -, hget⟩ := hfound
  rw [Option.map_eq_some_iff] at hget
  obtain ⟨property', hget, heq⟩ := hget
  cases heq
  exact hget

/-- A definition that finds nothing defines an absent key. -/
lemma WellStored.not_found (hstored : WellStored canonical object)
    (hfound : ((ownPropertyIndex object key).bind fun index =>
      object.properties[index]?.map fun property => (index, property)) = none) :
    scanProperties object key = none := by
  rw [← hstored.ownPropertyIndex_eq_scan]
  cases hindex : ownPropertyIndex object key with
  | none => rfl
  | some found =>
    obtain ⟨property, hget, -⟩ := hstored.lookup_some hindex
    rw [hindex, Option.bind_some, hget] at hfound
    cases hfound

/-! ## Absent properties -/

lemma defineAbsent_changes (replacesVirtual : Bool) (memory : Memory)
    (habsent : WellStored canonical (h.object o) →
      scanProperties (h.object o) property.key = none)
    (hfree : reserved canonical (h.object o) property.key = false) :
    Alters canonical h (defineAbsent h o replacesVirtual property memory).1 o := by
  unfold defineAbsent
  split
  · exact .refl h o
  · next key hlocal =>
    split
    · exact .refl h o
    · next grown hgrow =>
      apply Alters.of_shape (appendProperty_kind hgrow _ _)
      intro hstored
      obtain ⟨hequal, hsame⟩ := localSymbol_ok hlocal
      obtain ⟨capacity, rfl⟩ := growProperties_ok hgrow
      have hgrown : WellStored canonical { h.object o with propertyCapacity := capacity } :=
        hstored.of_core rfl
      refine @WellStored.append _ _ { property with key } hgrown ?_ ?_ replacesVirtual
      · exact scan_none_of_equal (habsent hstored) hequal
      · exact (hsame _).trans hfree

lemma appendOwnProperty_changes {value : Value} (attributes : OseoPropertyAttributes)
    (memory : Memory)
    (habsent : WellStored canonical (h.object o) → scanProperties (h.object o) key = none)
    (hkind : (h.object o).kind = .object) :
    Alters canonical h (appendOwnProperty h o key value attributes memory).1 o := by
  unfold appendOwnProperty
  split
  · exact .refl h o
  · next key' hlocal =>
    split
    · exact .refl h o
    · next grown hgrow =>
      apply Alters.of_shape ((insertProperty_kind _ _ _).trans (growProperties_kind hgrow))
      intro hstored
      have hequal := (@localSymbol_ok canonical _ _ _ hlocal).1
      obtain ⟨capacity, rfl⟩ := growProperties_ok hgrow
      have hgrown : WellStored canonical { h.object o with propertyCapacity := capacity } :=
        hstored.of_core rfl
      refine @WellStored.insert _ _ ⟨attributes, key', value, .undefined, .undefined⟩ _ hgrown
        ?_ ?_ ?_ ?_
      · exact scan_none_of_equal (habsent hstored) hequal
      · simp [reserved, functionHasPrototypeProperty, legacyLiveKey, hkind]
      · intro harray
        rw [hkind] at harray
        cases harray
      · exact Nat.le_refl _

/-! ## Legacy keys -/

lemma namedSlot_le (target rank : ℕ) (properties : List OseoProperty) :
    namedSlot target rank properties ≤ properties.length := by
  induction properties generalizing rank with
  | nil => exact Nat.le_refl _
  | cons property rest ih =>
    rw [namedSlot, List.length_cons]
    split
    · have := ih rank
      omega
    · split
      · omega
      · have := ih (rank + 1)
        omega

/-- The live keys of a function are two, and end apart. -/
lemma legacyLiveKey_cases {live : LegacyKey} (hlive : legacyLiveKey object key = some live) :
    object.kind = .function ∧
      (key = callerKey ∧ live = .caller ∨ key = argumentsKey ∧ live = .arguments) := by
  unfold legacyLiveKey at hlive
  split at hlive
  · cases hlive
  · next hkind =>
    refine ⟨not_not.mp hkind, ?_⟩
    split at hlive
    · next hcaller =>
      simp only [Bool.and_eq_true, decide_eq_true_eq] at hcaller
      cases hlive
      exact .inl ⟨hcaller.2, rfl⟩
    · split at hlive
      · next harguments =>
        simp only [Bool.and_eq_true, decide_eq_true_eq] at harguments
        cases hlive
        exact .inr ⟨harguments.2, rfl⟩
      · cases hlive

/-- A legacy key that is no longer live is the object's own. -/
def retireLegacy (object : OseoOrdinaryObject) (live : LegacyKey) : OseoOrdinaryObject :=
  { object with
    legacyCallerLive := object.legacyCallerLive && live ≠ .caller
    legacyArgumentsLive := object.legacyArgumentsLive && live ≠ .arguments }

lemma reserved_retireLegacy (live : LegacyKey)
    (hfree : reserved canonical object key = false) :
    reserved canonical (retireLegacy object live) key = false := by
  unfold reserved functionHasPrototypeProperty legacyLiveKey retireLegacy at *
  simp only [Bool.or_eq_false_iff] at hfree ⊢
  refine ⟨⟨hfree.1.1, ?_⟩, hfree.2⟩
  have hlegacy := hfree.1.2
  split at hlegacy
  · next hkind => rw [if_pos hkind]; rfl
  · next hkind =>
    rw [if_neg hkind]
    split at hlegacy
    · simp at hlegacy
    · split at hlegacy
      · simp at hlegacy
      · next hcaller harguments =>
        simp only [Bool.and_eq_true, decide_eq_true_eq, not_and] at hcaller harguments
        rw [if_neg (by simp; tauto), if_neg (by simp; tauto)]
        rfl

lemma WellStored.retireLegacy (hstored : WellStored canonical object) (live : LegacyKey) :
    WellStored canonical (retireLegacy object live) :=
  hstored.congr rfl rfl rfl rfl rfl rfl (fun _ => reserved_retireLegacy live) fun hdict => hdict

/-- The key that is retired is free. -/
lemma reserved_retired {live : LegacyKey} (hlive : legacyLiveKey object key = some live) :
    reserved canonical (PropertyStorage.retireLegacy object live) key = false := by
  obtain ⟨hkind, ⟨rfl, rfl⟩ | ⟨rfl, rfl⟩⟩ := legacyLiveKey_cases hlive <;>
    simp [reserved, functionHasPrototypeProperty, legacyLiveKey, PropertyStorage.retireLegacy,
      hkind, callerKey, argumentsKey, prototypeKey]

/-- The vector of an object does not hold a live legacy key. -/
lemma WellStored.legacy_absent (hstored : WellStored canonical object) {live : LegacyKey}
    (hlive : legacyLiveKey object key = some live) : scanProperties object key = none := by
  rw [scanProperties_eq_none]
  intro stored hmem
  rw [Bool.eq_false_iff]
  intro hequal
  have hstring : stored = key := by
    obtain ⟨-, ⟨rfl, rfl⟩ | ⟨rfl, rfl⟩⟩ := legacyLiveKey_cases hlive
    · exact propertyKeyEqual_string.mp hequal
    · exact propertyKeyEqual_string.mp hequal
  subst hstring
  have hfree := hstored.free stored hmem
  simp [reserved, hlive] at hfree

lemma insertProperty_retire (object : OseoOrdinaryObject) (live : LegacyKey) (slot : ℕ)
    (property : OseoProperty) :
    PropertyStorage.retireLegacy (insertProperty object slot property) live =
      insertProperty (PropertyStorage.retireLegacy object live) slot property := by
  unfold PropertyStorage.retireLegacy insertProperty notePropertyInserted
  dsimp only
  repeat' split
  all_goals rfl

/-- A synthetic property becomes one of the vector. -/
lemma WellStored.materialize (hstored : WellStored canonical object) {live : LegacyKey}
    (hlive : legacyLiveKey object key = some live) (value : Value) :
    WellStored canonical (materializeLegacy object live key value) := by
  have hkind := (legacyLiveKey_cases hlive).1
  unfold materializeLegacy
  dsimp only
  generalize hslot : namedSlot _ 0 object.properties = slot
  have hle : slot ≤ object.properties.length := hslot ▸ namedSlot_le _ _ _
  have hinserted := @WellStored.insert _ _
    ⟨⟨true, false, false, false⟩, key, value, .undefined, .undefined⟩ _
    (hstored.retireLegacy live) (hstored.legacy_absent hlive) (reserved_retired hlive)
    (fun harray => by
      have hfunction := hkind.symm.trans harray
      cases hfunction) hle
  rw [← insertProperty_retire] at hinserted
  obtain ⟨base, count, known, heq⟩ := insertProperty_eq object slot
    ⟨⟨true, false, false, false⟩, key, value, .undefined, .undefined⟩
  rw [heq] at hinserted ⊢
  exact hinserted.of_core rfl

lemma legacyMaterialize_changes (hmaterialize : legacyMaterialize h o key memory = .ok h') :
    Alters canonical h h' o := by
  unfold legacyMaterialize at hmaterialize
  split at hmaterialize
  · next live current hlive hcurrent =>
    split at hmaterialize
    · cases hmaterialize
    · split at hmaterialize
      · cases hmaterialize
      · next grown hgrow =>
        cases hmaterialize
        apply Alters.of_dictionary
          ((insertProperty_kind _ _ _).trans (growProperties_kind hgrow))
        intro hstored
        obtain ⟨capacity, rfl⟩ := growProperties_ok hgrow
        have hgrown : WellStored canonical { h.object o with propertyCapacity := capacity } :=
          hstored.of_core rfl
        exact hgrown.materialize hlive _
  · cases hmaterialize
    exact .refl h o

/-- A definition starts by making its key an ordinary one, and leaves a function what it is. -/
lemma legacyMaterialize_free (hmaterialize : legacyMaterialize h o key memory = .ok h') :
    legacyLiveKey (h'.object o) key = none ∧
      functionHasPrototypeProperty (h'.object o) = functionHasPrototypeProperty (h.object o) := by
  unfold legacyMaterialize at hmaterialize
  split at hmaterialize
  · next live current hlive hcurrent =>
    split at hmaterialize
    · cases hmaterialize
    · split at hmaterialize
      · cases hmaterialize
      · next grown hgrow =>
        cases hmaterialize
        obtain ⟨capacity, rfl⟩ := growProperties_ok hgrow
        unfold Heap.newDictionary
        rw [newShape_self, setObject_self, setObject_self]
        unfold materializeLegacy
        dsimp only
        generalize namedSlot _ 0 (h.object o).properties = slot
        obtain ⟨base, count, known, heq⟩ := insertProperty_eq
          { h.object o with propertyCapacity := capacity } slot
          ⟨⟨true, false, false, false⟩, key, _, .undefined, .undefined⟩
        rw [heq]
        refine ⟨?_, rfl⟩
        obtain ⟨hkind, ⟨rfl, rfl⟩ | ⟨rfl, rfl⟩⟩ := legacyLiveKey_cases hlive <;>
          simp [legacyLiveKey, callerKey, argumentsKey]
  · next hnone =>
    cases hmaterialize
    refine ⟨?_, rfl⟩
    cases hlive : legacyLiveKey (h.object o) key with
    | none => rfl
    | some live =>
      exfalso
      have hdescriptor : legacyDescriptor h o key ≠ none := by
        unfold legacyDescriptor
        rw [hlive]
        simp
      obtain ⟨current, hcurrent⟩ := Option.ne_none_iff_exists'.mp hdescriptor
      exact hnone live current hlive hcurrent

/-! ## Properties in place -/

lemma cellSet_objects (stored value : Value) :
    (cellSet h stored value).1.object = h.object ∧
      (cellSet h stored value).1.nextShapeId = h.nextShapeId ∧
      (cellSet h stored value).1.nextObject = h.nextObject := by
  unfold cellSet
  repeat' split
  all_goals exact ⟨rfl, rfl, rfl⟩

/-- A property written in its slot, under its key. -/
lemma WellStored.set (hstored : WellStored canonical object)
    (hget : object.properties[slot]? = some property) {property' : OseoProperty}
    (hkey : property'.key = property.key) :
    WellStored canonical { object with properties := object.properties.set slot property' } :=
  hstored.congr (keys_set hget hkey) rfl rfl rfl rfl rfl (fun _ hfree => hfree) fun hdict => hdict

lemma redefineData_changes (value : Value) (attributes : OseoPropertyAttributes)
    (hget : (h.object o).properties[index]? = some property) :
    Alters canonical h (redefineData h o index property value attributes).1 o := by
  unfold redefineData
  dsimp only
  split
  · exact .refl h o
  · split
    · exact .refl h o
    · split
      · next c hvalue hbacked =>
        -- The binding is written first, then the view of it.
        have hwritten := cellSet_objects (h := h) (.cell c) value
        split
        · next h₁ _ hset =>
          rw [hset] at hwritten
          obtain ⟨hobject, hnext, hcreated⟩ := hwritten
          have hchange : Alters canonical h₁ ((h₁.setObject o fun object =>
              { object with
                properties := object.properties.set index
                  { property with
                    attributes := attributes
                    value := if (h.object o).mappedArguments && !attributes.writable then value
                      else .cell c } }).newDictionary o) o := by
            apply Alters.of_dictionary rfl
            rw [hobject]
            exact fun hstored => hstored.set hget rfl
          split
          · exact hchange.congr hobject.symm hnext.symm hcreated.symm rfl rfl rfl
          · exact hchange.congr hobject.symm hnext.symm hcreated.symm rfl rfl rfl
        · exact .of_objects hwritten.1 hwritten.2.1 hwritten.2.2
      · exact .of_dictionary rfl fun hstored => hstored.redefine hget rfl

lemma redefineAccessor_changes (getter setter : Value) (hasGetter hasSetter : Bool)
    (attributes : OseoPropertyAttributes)
    (hget : (h.object o).properties[index]? = some property) :
    Alters canonical h
      (redefineAccessor h o index property getter setter hasGetter hasSetter attributes).1 o := by
  unfold redefineAccessor
  dsimp only
  generalize (if property.attributes.accessor then property.getter else .undefined) =
    existingGetter
  generalize (if property.attributes.accessor then property.setter else .undefined) =
    existingSetter
  split
  · exact .refl h o
  · exact .of_dictionary rfl fun hstored => hstored.redefine hget rfl

lemma defineArrayLength_changes (value : Value) (attributes : OseoPropertyAttributes)
    (hasValue absentWritable : Bool) (converted : Except Outcome (Fin (2 ^ 32))) :
    Alters canonical h
      (defineArrayLength h o value attributes hasValue absentWritable converted).1 o := by
  have hwrite : ∀ (h : Heap) (writable : Bool), Alters canonical h
      (h.setObject o fun object => { object with lengthWritable := writable }) o :=
    fun h writable => .of_core rfl
  unfold defineArrayLength
  dsimp only
  split
  · exact .refl h o
  · next requested hrequested =>
    generalize (if absentWritable then (h.object o).lengthWritable else attributes.writable) =
      writable
    split
    · exact .refl h o
    · split
      · exact hwrite h _
      · next hvalue =>
        have hbound : requested ≤ uint32Max := by
          rw [if_pos (by simpa using hvalue)] at hrequested
          cases converted with
          | error outcome => cases hrequested
          | ok length =>
            cases hrequested
            unfold uint32Max
            omega
        have hchange : Alters canonical h (setArrayLengthConverted h o value requested false
            true).1 o := setArrayLengthConverted_changes value hbound false true
        split
        · split
          · dsimp only
            split
            · exact hchange
            · exact hchange.trans (hwrite _ false)
          · exact hchange
        · exact hchange.trans (hwrite _ _)

/-! ## Definitions -/

lemma defineOrdinaryData_changes (value : Value) (attributes : OseoPropertyAttributes)
    (replacesVirtual : Bool) (memory : Memory)
    (hfree : reserved canonical (h.object o) key = false) :
    Alters canonical h
      (defineOrdinaryData h o key value attributes replacesVirtual memory).1 o := by
  unfold defineOrdinaryData
  dsimp only
  split
  · exact .refl h o
  · split
    · exact .refl h o
    · split
      · next index property hfound =>
        exact redefineData_changes value attributes (found_get hfound)
      · next hfound =>
        split
        · exact .refl h o
        · exact defineAbsent_changes replacesVirtual memory
            (fun hstored => hstored.not_found hfound) hfree

/-- The key of the virtual String iterator is a symbol. -/
lemma virtualStringIterator_free {virtual : OseoPropertyAttributes}
    (hvirtual : virtualStringIteratorDescriptor h o key = some virtual) :
    reserved canonical object key = false := by
  unfold virtualStringIteratorDescriptor at hvirtual
  split at hvirtual
  · cases hvirtual
  · next hkey =>
    simp only [Bool.or_eq_true, decide_eq_true_eq, not_or, not_not] at hkey
    obtain ⟨symbol, -, rfl⟩ := Option.map_eq_some_iff.mp hkey.2
    exact reserved_symbol object symbol

lemma defineVirtualData_changes (value : Value) (attributes virtual : OseoPropertyAttributes)
    (hasValue : Bool) (memory : Memory) (hfree : reserved canonical (h.object o) key = false) :
    Alters canonical h
      (defineVirtualData h o key value attributes virtual hasValue memory).1 o := by
  unfold defineVirtualData
  split
  · exact .refl h o
  · split
    · exact .of_dictionary rfl fun hstored => hstored.of_core rfl
    · exact defineOrdinaryData_changes value attributes true memory hfree

lemma defineDataReported_changes (value : Value) (attributes : OseoPropertyAttributes)
    (hasValue absentWritable : Bool) (converted : Except Outcome (Fin (2 ^ 32)))
    (memory : Memory) :
    Alters canonical h (defineDataReported canonical h o key value attributes hasValue
      absentWritable converted memory).1 o := by
  unfold defineDataReported defineDataProperty
  split
  · exact .refl h o
  · split
    · exact .refl h o
    · next hnumeric =>
      split
      · exact .refl h o
      · next h₁ hmaterialize =>
        have hchange := @legacyMaterialize_changes canonical _ _ _ _ _ hmaterialize
        apply hchange.trans
        split
        · unfold defineFunctionPrototype
          dsimp only
          split
          · exact .refl h₁ o
          · show Alters canonical h₁ (h₁.setObject o fun function =>
              { function with
                prototypeObject := value, prototypeWritable := attributes.writable }) o
            exact .of_core rfl
        · next hprototype =>
          split
          · next virtual hvirtual =>
            exact defineVirtualData_changes value attributes virtual hasValue memory
              (virtualStringIterator_free hvirtual)
          · split
            · exact defineArrayLength_changes value attributes hasValue absentWritable converted
            · next hlength =>
              apply defineOrdinaryData_changes
              rw [← hchange.sameKinds.kinds] at hnumeric
              simp [reserved, (legacyMaterialize_free hmaterialize).1, hnumeric, hprototype, hlength]

lemma defineAccessorReported_changes (getter setter : Value) (hasGetter hasSetter : Bool)
    (attributes : OseoPropertyAttributes) (memory : Memory) :
    Alters canonical h (defineAccessorReported canonical h o key getter setter hasGetter
      hasSetter attributes memory).1 o := by
  unfold defineAccessorReported defineAccessorProperty
  split
  · exact .refl h o
  · split
    · exact .refl h o
    · next hnumeric =>
      split
      · exact .refl h o
      · split
        · exact .refl h o
        · next hprototype =>
          split
          · exact .refl h o
          · next h₁ hmaterialize =>
            have hchange := @legacyMaterialize_changes canonical _ _ _ _ _ hmaterialize
            apply hchange.trans
            dsimp only
            split
            · exact .refl h₁ o
            · split
              · exact .refl h₁ o
              · next hlength =>
                split
                · exact .refl h₁ o
                · split
                  · next index property hfound =>
                    exact redefineAccessor_changes getter setter hasGetter hasSetter attributes
                      (found_get hfound)
                  · next hfound =>
                    split
                    · exact .refl h₁ o
                    · apply defineAbsent_changes
                      · exact fun hstored => hstored.not_found hfound
                      · rw [← hchange.sameKinds.kinds] at hnumeric
                        rw [← (legacyMaterialize_free hmaterialize).2] at hprototype
                        simp [reserved, (legacyMaterialize_free hmaterialize).1, hnumeric, hprototype,
                          hlength]

/-! ## Deletion -/

/-- The positions of a function count its own keys, and are no part of the vector. -/
lemma shortened_core (object : OseoOrdinaryObject) (index : ℕ) :
    (if functionHasPrototypeProperty object then
      { object with
        prototypeKeyPosition := shortenPosition object index object.prototypeKeyPosition
        legacyArgumentsPosition := shortenPosition object index object.legacyArgumentsPosition }
    else object).core = object.core := by
  split <;> rfl

theorem WellStored.delete (hstored : WellStored canonical object) (index : ℕ)
    (stringIterator : Bool) :
    WellStored canonical (deleteProperty object index stringIterator) := by
  unfold deleteProperty
  dsimp only
  generalize hpositioned : (if functionHasPrototypeProperty object then
      { object with
        prototypeKeyPosition := shortenPosition object index object.prototypeKeyPosition
        legacyArgumentsPosition := shortenPosition object index object.legacyArgumentsPosition }
    else object) = positioned
  have hcore := shortened_core object index
  rw [hpositioned] at hcore
  have hkept : WellStored canonical positioned := hstored.of_core hcore
  cases hremove : removeProperty positioned index with
  | none => exact hkept.of_core rfl
  | some removed => exact (hkept.remove hremove).of_core rfl

lemma deleteProperty_kind (object : OseoOrdinaryObject) (index : ℕ) (stringIterator : Bool) :
    (deleteProperty object index stringIterator).kind = object.kind := by
  unfold deleteProperty
  rw [getD_removeProperty_kind]
  split <;> rfl

lemma objectDelete_changes (hasIndex : PropertyKey → Bool) (strict : Bool) :
    Alters canonical h (objectDelete canonical hasIndex h o key strict).1 o := by
  unfold objectDelete
  dsimp only
  split
  · exact .refl h o
  · split
    · exact .refl h o
    · split
      · exact .refl h o
      · split
        · next live hlive =>
          exact .of_dictionary rfl fun hstored => hstored.retireLegacy live
        · split
          · exact .refl h o
          · split
            · split
              · split
                · exact .refl h o
                · exact .of_dictionary rfl fun hstored => hstored.of_core rfl
              · exact .refl h o
            · split
              · exact .refl h o
              · exact .of_dictionary (deleteProperty_kind ..) fun hstored => hstored.delete _ _

end Oseo.PropertyStorage
