import Oseo.Library.DenseRun
import Oseo.PropertyStorage.Access

/-!
# The property vector keeps its keys findable

`WellStored` is what the runtime maintains about the property vector of an object. The theorem
`ownPropertyIndex_eq_scan` says that the shortcuts of the lookup then find what a scan finds, and
one lemma for each way of changing the vector says that `WellStored` is kept.
-/

namespace Oseo.PropertyStorage

open Oseo.Library
open List

variable {canonical : List ℕ → Bool} {object object' : OseoOrdinaryObject}
  {key : PropertyKey} {property : OseoProperty} {slot index : ℕ}

/-- The keys in the order of the vector. -/
def OseoOrdinaryObject.keys (object : OseoOrdinaryObject) : List PropertyKey :=
  object.properties.map OseoProperty.key

/-- The keys an object answers without its vector. -/
def reserved (canonical : List ℕ → Bool) (object : OseoOrdinaryObject)
    (key : PropertyKey) : Bool :=
  (object.kind = .array && key = lengthKey) ||
    (functionHasPrototypeProperty object && key = prototypeKey) ||
    (legacyLiveKey object key).isSome ||
    (object.kind = .typedArray && typedArrayNumericKey canonical key)

/-- What the runtime maintains about a property vector. -/
structure WellStored (canonical : List ℕ → Bool) (object : OseoOrdinaryObject) : Prop where
  distinct : object.keys.Pairwise fun x y => propertyKeyEqual x y = false
  run : object.denseIndexKnown = true →
    DenseRun arrayIndex object.keys object.denseIndexBase object.denseIndexCount
  below : object.kind = .array → ∀ key ∈ object.keys, ∀ i,
    arrayIndex key = some i → i < object.arrayLength
  bounded : object.arrayLength ≤ uint32Max
  free : ∀ key ∈ object.keys, reserved canonical object key = false
  proxy : object.kind = .proxy → object.dictionary = true

lemma getElem?_keys : object.keys[slot]? = object.properties[slot]?.map OseoProperty.key := by
  unfold OseoOrdinaryObject.keys
  rw [getElem?_map]

lemma length_keys : object.keys.length = object.properties.length := by
  unfold OseoOrdinaryObject.keys
  rw [length_map]

lemma key_mem (h : object.properties[slot]? = some property) : property.key ∈ object.keys :=
  mem_map_of_mem (mem_of_getElem? h)

/-! ## Lookups -/

lemma scanProperties_eq : scanProperties object key =
    object.keys.findIdx? fun stored => propertyKeyEqual stored key := by
  unfold scanProperties OseoOrdinaryObject.keys
  rw [findIdx?_map]
  rfl

lemma scanProperties_eq_none : scanProperties object key = none ↔
    ∀ stored ∈ object.keys, propertyKeyEqual stored key = false := by
  rw [scanProperties_eq, findIdx?_eq_none_iff]

lemma scanProperties_some (h : scanProperties object key = some slot) :
    ∃ property, object.properties[slot]? = some property ∧
      propertyKeyEqual property.key key = true := by
  obtain ⟨hlt, heq, -⟩ := findIdx?_eq_some_iff_getElem.mp h
  exact ⟨_, getElem?_eq_getElem hlt, heq⟩

/-- No two slots hold equal keys. -/
lemma WellStored.slot_unique (h : WellStored canonical object) {x y : PropertyKey} {i j : ℕ}
    (hi : object.keys[i]? = some x) (hj : object.keys[j]? = some y)
    (heq : propertyKeyEqual x y = true) : i = j := by
  obtain ⟨hilt, rfl⟩ := List.getElem?_eq_some_iff.mp hi
  obtain ⟨hjlt, rfl⟩ := List.getElem?_eq_some_iff.mp hj
  have hpair := List.pairwise_iff_getElem.mp h.distinct
  by_contra hne
  rcases Nat.lt_or_gt_of_ne hne with hlt | hlt
  · rw [hpair i j hilt hjlt hlt] at heq
    simp at heq
  · rw [propertyKeyEqual_comm, hpair j i hjlt hilt hlt] at heq
    simp at heq

/-- A slot with the key is the one the scan finds. -/
lemma WellStored.scan_of_get (h : WellStored canonical object)
    (hslot : object.properties[slot]? = some property)
    (heq : propertyKeyEqual property.key key = true) : scanProperties object key = some slot := by
  have hkey : object.keys[slot]? = some property.key := by
    rw [getElem?_keys, hslot]
    rfl
  cases hscan : scanProperties object key with
  | none =>
    have := scanProperties_eq_none.mp hscan _ (key_mem hslot)
    rw [this] at heq
    simp at heq
  | some found =>
    obtain ⟨other, hother, hequal⟩ := scanProperties_some hscan
    have hfound : object.keys[found]? = some other.key := by
      rw [getElem?_keys, hother]
      rfl
    rw [propertyKeyEqual_comm] at heq
    rw [h.slot_unique hkey hfound]
    rw [propertyKeyEqual_comm]
    exact propertyKeyEqual_trans hequal heq

/-- An array index that no key is. -/
lemma scan_none_of_index (hkey : arrayIndex key = some index)
    (h : ∀ stored ∈ object.keys, arrayIndex stored ≠ some index) :
    scanProperties object key = none := by
  rw [scanProperties_eq_none]
  intro stored hstored
  rw [Bool.eq_false_iff]
  intro heq
  exact h stored hstored ((arrayIndex_congr heq).trans hkey)

/-- The shortcuts of the lookup find what a plain scan finds. -/
theorem WellStored.ownPropertyIndex_eq_scan (h : WellStored canonical object)
    (key : PropertyKey) : ownPropertyIndex object key = scanProperties object key := by
  unfold ownPropertyIndex
  split
  · rfl
  · next index hindex =>
    split
    · -- An array holds no index from its length on.
      next hpast =>
      simp only [Bool.and_eq_true, decide_eq_true_eq] at hpast
      refine (scan_none_of_index hindex fun stored hstored heq => ?_).symm
      have := h.below hpast.1 stored hstored index heq
      omega
    · split
      · -- The slot that has the number of the index.
        next hguess =>
        simp only [Bool.and_eq_true, decide_eq_true_eq, Option.any_eq_true] at hguess
        obtain ⟨-, property, hget, heq⟩ := hguess
        exact (h.scan_of_get hget heq).symm
      · split
        · next hknown =>
          have hrun := h.run hknown
          split
          · refine (scan_none_of_index hindex fun stored hstored heq => ?_).symm
            obtain ⟨slot, hslot⟩ := mem_iff_getElem?.mp hstored
            have := (hrun.index_of_get hslot).mp heq
            omega
          · obtain ⟨stored, hget, heq⟩ := hrun.get (show index < object.denseIndexCount by omega)
            rw [getElem?_keys, Option.map_eq_some_iff] at hget
            obtain ⟨property, hget, rfl⟩ := hget
            exact (h.scan_of_get hget (propertyKeyEqual_of_arrayIndex heq hindex)).symm
        · rfl

/-- What the lookup finds is in the vector, under an equal key. -/
lemma WellStored.lookup_some (h : WellStored canonical object)
    (hindex : ownPropertyIndex object key = some slot) :
    ∃ property, object.properties[slot]? = some property ∧
      propertyKeyEqual property.key key = true := by
  rw [h.ownPropertyIndex_eq_scan] at hindex
  exact scanProperties_some hindex

/-! ## Insertion -/

lemma keys_insertIdx (object : OseoOrdinaryObject) (slot : ℕ) (property : OseoProperty) :
    (object.properties.insertIdx slot property).map OseoProperty.key =
      object.keys.insertIdx slot property.key :=
  map_insertIdx ..

/-- `notePropertyInserted` writes the hint only. -/
lemma notePropertyInserted_eq (object : OseoOrdinaryObject) (slot : ℕ) :
    ∃ base count known, notePropertyInserted object slot =
      { object with
        denseIndexBase := base, denseIndexCount := count, denseIndexKnown := known } := by
  unfold notePropertyInserted
  split
  · exact ⟨_, _, _, rfl⟩
  · split
    · split
      · exact ⟨_, _, _, rfl⟩
      · split <;> exact ⟨_, _, _, rfl⟩
    · split
      · split
        · exact ⟨_, _, _, rfl⟩
        · split <;> exact ⟨_, _, _, rfl⟩
      · exact ⟨_, _, _, rfl⟩

lemma insertProperty_eq (object : OseoOrdinaryObject) (slot : ℕ) (property : OseoProperty) :
    ∃ base count known, insertProperty object slot property =
      { object with
        properties := object.properties.insertIdx slot property
        denseIndexBase := base, denseIndexCount := count, denseIndexKnown := known } := by
  obtain ⟨base, count, known, heq⟩ := notePropertyInserted_eq
    { object with properties := object.properties.insertIdx slot property } slot
  exact ⟨base, count, known, heq⟩

/-- The hint stays right under an insertion at any slot. -/
lemma insertProperty_run
    (hrun : object.denseIndexKnown = true →
      DenseRun arrayIndex object.keys object.denseIndexBase object.denseIndexCount)
    (hslot : slot ≤ object.properties.length) :
    (insertProperty object slot property).denseIndexKnown = true →
      DenseRun arrayIndex (object.keys.insertIdx slot property.key)
        (insertProperty object slot property).denseIndexBase
        (insertProperty object slot property).denseIndexCount := by
  have hkeys : slot ≤ object.keys.length := by rwa [length_keys]
  unfold insertProperty notePropertyInserted
  simp only [getElem?_insertIdx_self, if_pos hslot, Option.bind_some]
  by_cases hknown : object.denseIndexKnown = true
  · have hdense := hrun hknown
    rw [if_neg (by simp [hknown])]
    split
    · next index hindex =>
      -- An array index starts the run, extends it, or ends the hint.
      split
      · next hfirst =>
        simp only [Bool.and_eq_true, decide_eq_true_eq] at hfirst
        intro _
        rw [hfirst.1] at hdense
        rw [hfirst.2] at hindex
        exact (hdense.move _).insert_next hindex hkeys
      · split
        · next hnext =>
          simp only [Bool.and_eq_true, decide_eq_true_eq] at hnext
          obtain ⟨⟨hpos, rfl⟩, rfl⟩ := hnext
          intro _
          exact hdense.insert_next hindex hkeys
        · intro hfalse
          simp at hfalse
    · next hindex =>
      split
      · split
        · next hle =>
          intro _
          exact hdense.insert_before hindex hkeys hle
        · split
          · intro hfalse
            simp at hfalse
          · intro _
            exact hdense.insert_after hindex hkeys (by omega)
      · next hzero =>
        -- An empty run is nowhere.
        intro _
        have hcount : object.denseIndexCount = 0 := by omega
        simp only [hcount] at hdense ⊢
        exact ((hdense.move 0).insert_after hindex hkeys (by omega)).move _
  · rw [if_pos (by simpa using hknown)]
    intro h
    exact absurd h hknown

/-- A property with a new key that the object does not answer otherwise can go in any slot. -/
lemma WellStored.insert (h : WellStored canonical object)
    (habsent : scanProperties object property.key = none)
    (hfree : reserved canonical object property.key = false)
    (hbelow : object.kind = .array → ∀ i, arrayIndex property.key = some i →
      i < object.arrayLength)
    (hslot : slot ≤ object.properties.length) :
    WellStored canonical (insertProperty object slot property) := by
  have hkeys : slot ≤ object.keys.length := by rwa [length_keys]
  have hperm := perm_insertIdx property.key object.keys hkeys
  have hmem : ∀ key ∈ object.keys.insertIdx slot property.key,
      key = property.key ∨ key ∈ object.keys := by
    intro key hkey
    rw [← mem_cons]
    exact hperm.mem_iff.mp hkey
  have hrun := @insertProperty_run object property slot h.run hslot
  obtain ⟨base, count, known, heq⟩ := insertProperty_eq object slot property
  rw [heq] at hrun ⊢
  refine ⟨?_, ?_, ?_, h.bounded, ?_, h.proxy⟩
  · show Pairwise _ (map _ _)
    rw [keys_insertIdx, hperm.pairwise_iff fun hxy => (propertyKeyEqual_comm _ _).trans hxy,
      pairwise_cons]
    refine ⟨fun stored hstored => ?_, h.distinct⟩
    rw [propertyKeyEqual_comm]
    exact scanProperties_eq_none.mp habsent stored hstored
  · show known = true → DenseRun arrayIndex (map _ _) base count
    rw [keys_insertIdx]
    exact hrun
  · show object.kind = .array → ∀ key ∈ map _ _, _
    rw [keys_insertIdx]
    intro harray key hkey i hi
    rcases hmem key hkey with rfl | hkey
    · exact hbelow harray i hi
    · exact h.below harray key hkey i hi
  · show ∀ key ∈ map _ _, _
    rw [keys_insertIdx]
    intro key hkey
    rcases hmem key hkey with rfl | hkey
    · exact hfree
    · exact h.free key hkey

/-! ## Removal -/

lemma keys_eraseIdx (object : OseoOrdinaryObject) (slot : ℕ) :
    (object.properties.eraseIdx slot).map OseoProperty.key = object.keys.eraseIdx slot :=
  (eraseIdx_map ..).symm

/-- What a removal does, with the hint it leaves. -/
lemma removeProperty_some (h : removeProperty object slot = some object') :
    ∃ property base count known, object.properties[slot]? = some property ∧
      property.attributes.configurable = true ∧
      object' = { object with
        properties := object.properties.eraseIdx slot
        denseIndexBase := base, denseIndexCount := count, denseIndexKnown := known } ∧
      ((object.denseIndexKnown = true →
          DenseRun arrayIndex object.keys object.denseIndexBase object.denseIndexCount) →
        known = true → DenseRun arrayIndex (object.keys.eraseIdx slot) base count) := by
  unfold removeProperty at h
  split at h
  · simp at h
  · next property hproperty =>
    split at h
    · simp at h
    · next hconfigurable =>
      refine ⟨property, ?_⟩
      have hconf : property.attributes.configurable = true := by simpa using hconfigurable
      split at h
      · next hhint =>
        simp only [Bool.and_eq_true, decide_eq_true_eq] at hhint
        split at h
        · next hbefore =>
          cases h
          exact ⟨_, _, _, hproperty, hconf, rfl, fun hrun hknown =>
            (hrun hknown).erase_before hbefore⟩
        · split at h
          · next hlast =>
            cases h
            refine ⟨_, _, _, hproperty, hconf, rfl, fun hrun hknown => ?_⟩
            have := (hrun hknown).erase_last hhint.2 hlast
            split
            · next hzero =>
              rw [hzero] at this ⊢
              exact this.move 0
            · exact this
          · split at h
            · cases h
              refine ⟨object.denseIndexBase, object.denseIndexCount, false, hproperty, hconf, rfl,
                fun _ hknown => ?_⟩
              simp at hknown
            · cases h
              exact ⟨_, _, _, hproperty, hconf, rfl, fun hrun hknown =>
                (hrun hknown).erase_after (by omega)⟩
      · next hhint =>
        cases h
        refine ⟨_, _, _, hproperty, hconf, rfl, fun hrun hknown => ?_⟩
        have hcount : object.denseIndexCount = 0 := by
          simp only [hknown, Bool.true_and, decide_eq_true_eq] at hhint
          omega
        have hdense := hrun hknown
        simp only [hcount] at hdense ⊢
        exact ((hdense.move 0).erase_after (by omega)).move _

/-- Any configurable property can be removed. -/
lemma WellStored.remove (h : WellStored canonical object)
    (hremove : removeProperty object slot = some object') : WellStored canonical object' := by
  obtain ⟨property, base, count, known, -, -, rfl, hrun⟩ := removeProperty_some hremove
  have hsub : (object.keys.eraseIdx slot).Sublist object.keys := eraseIdx_sublist ..
  refine ⟨?_, ?_, ?_, h.bounded, ?_, h.proxy⟩
  · show Pairwise _ (map _ _)
    rw [keys_eraseIdx]
    exact h.distinct.sublist hsub
  · show known = true → DenseRun arrayIndex (map _ _) base count
    rw [keys_eraseIdx]
    exact hrun h.run
  · show object.kind = .array → ∀ key ∈ map _ _, _
    rw [keys_eraseIdx]
    exact fun harray key hkey => h.below harray key (hsub.mem hkey)
  · show ∀ key ∈ map _ _, _
    rw [keys_eraseIdx]
    exact fun key hkey => h.free key (hsub.mem hkey)

/-! ## Changes that keep the keys -/

/-- A property redefined in its slot keeps its key. -/
lemma keys_set (hget : object.properties[slot]? = some property) {property' : OseoProperty}
    (hkey : property'.key = property.key) :
    (object.properties.set slot property').map OseoProperty.key = object.keys := by
  obtain ⟨hlt, rfl⟩ := List.getElem?_eq_some_iff.mp hget
  have hlt' : slot < (object.properties.map OseoProperty.key).length := by
    rwa [List.length_map]
  have hslot : (object.properties.map OseoProperty.key)[slot] = object.properties[slot].key :=
    getElem_map _
  rw [map_set, hkey, ← hslot]
  exact set_getElem_self _

/-- An object with the same keys, hint and length, that answers no more keys without its vector. -/
lemma WellStored.congr (h : WellStored canonical object) (hkeys : object'.keys = object.keys)
    (hbase : object'.denseIndexBase = object.denseIndexBase)
    (hcount : object'.denseIndexCount = object.denseIndexCount)
    (hknown : object'.denseIndexKnown = object.denseIndexKnown)
    (hkind : object'.kind = object.kind)
    (hlength : object'.arrayLength = object.arrayLength)
    (hreserved : ∀ key, reserved canonical object key = false →
      reserved canonical object' key = false)
    (hproxy : object.dictionary = true → object'.dictionary = true) :
    WellStored canonical object' := by
  refine ⟨?_, ?_, ?_, ?_, ?_, ?_⟩
  · rw [hkeys]
    exact h.distinct
  · rw [hkeys, hbase, hcount, hknown]
    exact h.run
  · rw [hkeys, hkind, hlength]
    exact h.below
  · rw [hlength]
    exact h.bounded
  · rw [hkeys]
    exact fun key hkey => hreserved key (h.free key hkey)
  · rw [hkind]
    exact fun hproxied => hproxy (h.proxy hproxied)

/-! ## What an operation changes

Every operation changes one object. `Changes` says what may happen to it: its property vector
stays well stored, and where a slot no longer means what it meant, the object has a new shape
identifier or is in dictionary mode. Only a creation writes a kind (`Alters`).
-/

variable {h h' h'' : Heap} {o : ℕ} {object'' : OseoOrdinaryObject} {key' : PropertyKey}
  {memory : Memory} {outcome : Outcome}

/-- Every slot of the second object means what it means in the first one. -/
structure SameLayout (object object' : OseoOrdinaryObject) : Prop where
  shape : object'.shapeId = object.shapeId
  slots : ∀ (slot : ℕ) (property' : OseoProperty), object'.properties[slot]? = some property' →
    ∃ property : OseoProperty, object.properties[slot]? = some property ∧
      property'.key = property.key ∧
      property'.attributes.accessor = property.attributes.accessor ∧
      cellBackedProperty object' property'.value = cellBackedProperty object property.value

/-- An operation on one object, and what it leaves. -/
structure Changes (canonical : List ℕ → Bool) (h h' : Heap) (o : ℕ) : Prop where
  others : ∀ o', o' ≠ o → h'.object o' = h.object o'
  next : h.nextShapeId ≤ h'.nextShapeId
  shape : (h'.object o).shapeId = (h.object o).shapeId ∨
    h.nextShapeId ≤ (h'.object o).shapeId ∧ (h'.object o).shapeId < h'.nextShapeId
  stored : WellStored canonical (h.object o) → WellStored canonical (h'.object o)
  dictionary : (h.object o).dictionary = true →
    (h'.object o).dictionary = true ∨ h.nextShapeId ≤ (h'.object o).shapeId
  layout : (h'.object o).dictionary = true ∨ h.nextShapeId ≤ (h'.object o).shapeId ∨
    SameLayout (h.object o) (h'.object o)

/-! ## Layouts -/

lemma SameLayout.refl (object : OseoOrdinaryObject) : SameLayout object object :=
  ⟨rfl, fun _ property hget => ⟨property, hget, rfl, rfl, rfl⟩⟩

lemma SameLayout.trans (hsame : SameLayout object object') (hsame' : SameLayout object' object'') :
    SameLayout object object'' where
  shape := hsame'.shape.trans hsame.shape
  slots slot property'' hget := by
    obtain ⟨property', hget', hkey', haccessor', hcell'⟩ := hsame'.slots slot property'' hget
    obtain ⟨property, hget, hkey, haccessor, hcell⟩ := hsame.slots slot property' hget'
    exact ⟨property, hget, hkey'.trans hkey, haccessor'.trans haccessor, hcell'.trans hcell⟩

/-- Objects with the same vector and the same views of bindings. -/
lemma SameLayout.of_properties (hshape : object'.shapeId = object.shapeId)
    (hproperties : object'.properties = object.properties)
    (hviews : ∀ stored, cellBackedProperty object' stored = cellBackedProperty object stored) :
    SameLayout object object' where
  shape := hshape
  slots slot property hget := by
    rw [hproperties] at hget
    exact ⟨property, hget, rfl, rfl, hviews _⟩

/-! ## Changes compose -/

lemma Changes.refl (h : Heap) (o : ℕ) : Changes canonical h h o where
  others _ _ := rfl
  next := Nat.le_refl _
  shape := .inl rfl
  stored hstored := hstored
  dictionary hdictionary := .inl hdictionary
  layout := .inr (.inr (.refl _))

theorem Changes.trans (hchange : Changes canonical h h' o) (hchange' : Changes canonical h' h'' o) :
    Changes canonical h h'' o where
  others o' hne := (hchange'.others o' hne).trans (hchange.others o' hne)
  next := hchange.next.trans hchange'.next
  shape := by
    have := hchange.next
    have := hchange'.next
    rcases hchange'.shape with heq' | hfresh'
    · rcases hchange.shape with heq | hfresh
      · exact .inl (heq'.trans heq)
      · right
        omega
    · right
      omega
  stored hstored := hchange'.stored (hchange.stored hstored)
  dictionary hdictionary := by
    have := hchange.next
    rcases hchange.dictionary hdictionary with hkept | hfresh
    · rcases hchange'.dictionary hkept with hkept' | hfresh'
      · exact .inl hkept'
      · right
        omega
    · -- A new shape identifier stays one.
      right
      rcases hchange'.shape with heq' | hfresh' <;> omega
  layout := by
    have := hchange.next
    rcases hchange'.layout with hdictionary' | hfresh' | hsame'
    · exact .inl hdictionary'
    · right
      left
      omega
    · rcases hchange.layout with hdictionary | hfresh | hsame
      · rcases hchange'.dictionary hdictionary with hkept' | hfresh'
        · exact .inl hkept'
        · right
          left
          omega
      · right
        left
        rw [hsame'.shape]
        exact hfresh
      · exact .inr (.inr (hsame.trans hsame'))

/-! ## Writing an object -/

@[simp] lemma setObject_self (h : Heap) (o : ℕ) (f : OseoOrdinaryObject → OseoOrdinaryObject) :
    (h.setObject o f).object o = f (h.object o) :=
  Function.update_self ..

lemma setObject_of_ne {o' : ℕ} (hne : o' ≠ o) (f : OseoOrdinaryObject → OseoOrdinaryObject) :
    (h.setObject o f).object o' = h.object o' :=
  Function.update_of_ne hne ..

@[simp] lemma setObject_next (h : Heap) (o : ℕ) (f : OseoOrdinaryObject → OseoOrdinaryObject) :
    (h.setObject o f).nextShapeId = h.nextShapeId := rfl

@[simp] lemma newShape_self (h : Heap) (o : ℕ) :
    (h.newShape o).object o = { h.object o with shapeId := h.nextShapeId } :=
  setObject_self h o fun object => { object with shapeId := h.nextShapeId }

lemma newShape_of_ne {o' : ℕ} (hne : o' ≠ o) : (h.newShape o).object o' = h.object o' :=
  setObject_of_ne hne fun object => { object with shapeId := h.nextShapeId }

/-- A write that keeps the layout. -/
lemma Changes.of_layout {f : OseoOrdinaryObject → OseoOrdinaryObject}
    (hstored : WellStored canonical (h.object o) → WellStored canonical (f (h.object o)))
    (hdictionary : (h.object o).dictionary = true → (f (h.object o)).dictionary = true)
    (hlayout : SameLayout (h.object o) (f (h.object o))) :
    Changes canonical h (h.setObject o f) o where
  others _ hne := setObject_of_ne hne f
  next := Nat.le_refl _
  shape := by
    rw [setObject_self]
    exact .inl hlayout.shape
  stored := by
    rw [setObject_self]
    exact hstored
  dictionary hdict := by
    rw [setObject_self]
    exact .inl (hdictionary hdict)
  layout := by
    rw [setObject_self]
    exact .inr (.inr hlayout)

/-- The shape identifier is no part of what the vector maintains. -/
lemma WellStored.newShape (hstored : WellStored canonical object) (shape : ℕ) :
    WellStored canonical { object with shapeId := shape } :=
  hstored.congr rfl rfl rfl rfl rfl rfl (fun _ hfree => hfree) fun hdict => hdict

/-- A write with a new shape identifier. -/
lemma Changes.of_shape {f : OseoOrdinaryObject → OseoOrdinaryObject}
    (hstored : WellStored canonical (h.object o) → WellStored canonical (f (h.object o))) :
    Changes canonical h ((h.setObject o f).newShape o) o := by
  have hself : ((h.setObject o f).newShape o).object o =
      { f (h.object o) with shapeId := h.nextShapeId } := by
    rw [newShape_self, setObject_self, setObject_next]
  refine ⟨?_, ?_, ?_, ?_, ?_, ?_⟩
  · intro o' hne
    rw [newShape_of_ne hne, setObject_of_ne hne]
  · show h.nextShapeId ≤ h.nextShapeId + 1
    omega
  · rw [hself]
    right
    show h.nextShapeId ≤ h.nextShapeId ∧ h.nextShapeId < h.nextShapeId + 1
    omega
  · rw [hself]
    exact fun hwell => (hstored hwell).newShape _
  · rw [hself]
    exact fun _ => .inr (Nat.le_refl _)
  · rw [hself]
    exact .inr (.inl (Nat.le_refl _))

/-- Dictionary mode is no part of what the vector maintains. -/
lemma WellStored.newDictionary (hstored : WellStored canonical object) :
    WellStored canonical { object with dictionary := true } :=
  hstored.congr rfl rfl rfl rfl rfl rfl (fun _ hfree => hfree) fun _ => rfl

lemma setObject_setObject (h : Heap) (o : ℕ) (f g : OseoOrdinaryObject → OseoOrdinaryObject) :
    (h.setObject o f).setObject o g = h.setObject o (fun object => g (f object)) := by
  unfold Heap.setObject
  simp [Function.update_idem]

/-- The fields that say what is in the vector and what its slots mean. -/
def OseoOrdinaryObject.core (object : OseoOrdinaryObject) :=
  ((object.kind, object.functionKind, object.properties, object.arrayLength),
    (object.denseIndexBase, object.denseIndexCount, object.denseIndexKnown),
    (object.legacyCallerLive, object.legacyArgumentsLive),
    (object.moduleNamespace, object.globalObject, object.mappedArguments),
    object.shapeId, object.dictionary)

lemma WellStored.of_core (hstored : WellStored canonical object)
    (hcore : object'.core = object.core) : WellStored canonical object' := by
  simp only [OseoOrdinaryObject.core, Prod.mk.injEq] at hcore
  obtain ⟨⟨hkind, hfunction, hproperties, hlength⟩, ⟨hbase, hcount, hknown⟩, ⟨hcaller, harguments⟩,
    -, -, hdictionary⟩ := hcore
  refine hstored.congr ?_ hbase hcount hknown hkind hlength ?_ ?_
  · unfold OseoOrdinaryObject.keys
    rw [hproperties]
  · intro key hfree
    unfold reserved functionHasPrototypeProperty legacyLiveKey at hfree ⊢
    rw [hkind, hfunction, hcaller, harguments]
    exact hfree
  · rw [hdictionary]
    exact fun hdict => hdict

lemma SameLayout.of_core (hcore : object'.core = object.core) : SameLayout object object' := by
  simp only [OseoOrdinaryObject.core, Prod.mk.injEq] at hcore
  obtain ⟨⟨-, -, hproperties, -⟩, -, -, ⟨hnamespace, hglobal, hmapped⟩, hshape, -⟩ := hcore
  refine .of_properties hshape hproperties fun stored => ?_
  unfold cellBackedProperty
  rw [hnamespace, hglobal, hmapped]

/-- A write to other fields. -/
lemma Changes.of_core {f : OseoOrdinaryObject → OseoOrdinaryObject}
    (hcore : (f (h.object o)).core = (h.object o).core) : Changes canonical h (h.setObject o f) o := by
  refine .of_layout (fun hstored => hstored.of_core hcore) ?_ (.of_core hcore)
  simp only [OseoOrdinaryObject.core, Prod.mk.injEq] at hcore
  rw [hcore.2.2.2.2.2]
  exact fun hdict => hdict

/-- Heaps with the same objects change alike. -/
lemma Changes.congr {h₁ h₁' : Heap} (hchange : Changes canonical h h' o)
    (hobject : h₁.object = h.object) (hnext : h₁.nextShapeId = h.nextShapeId)
    (hobject' : h₁'.object = h'.object) (hnext' : h₁'.nextShapeId = h'.nextShapeId) :
    Changes canonical h₁ h₁' o where
  others := by
    rw [hobject, hobject']
    exact hchange.others
  next := by
    rw [hnext, hnext']
    exact hchange.next
  shape := by
    rw [hobject, hobject', hnext, hnext']
    exact hchange.shape
  stored := by
    rw [hobject, hobject']
    exact hchange.stored
  dictionary := by
    rw [hobject, hobject', hnext]
    exact hchange.dictionary
  layout := by
    rw [hobject, hobject', hnext]
    exact hchange.layout

/-! ## Kinds -/

/-- No kind is written, and no object created. -/
structure SameKinds (h h' : Heap) : Prop where
  kinds : ∀ o, (h'.object o).kind = (h.object o).kind
  next : h'.nextObject = h.nextObject

lemma SameKinds.setObject {f : OseoOrdinaryObject → OseoOrdinaryObject}
    (hkind : (f (h.object o)).kind = (h.object o).kind) : SameKinds h (h.setObject o f) := by
  refine ⟨fun x => ?_, rfl⟩
  by_cases hx : x = o
  · rw [hx, setObject_self]
    exact hkind
  · rw [setObject_of_ne hx]

/-- A change of an object that was created before. -/
structure Alters (canonical : List ℕ → Bool) (h h' : Heap) (o : ℕ) : Prop
    extends Changes canonical h h' o where
  sameKinds : SameKinds h h'

namespace Alters

lemma refl (h : Heap) (o : ℕ) : Alters canonical h h o :=
  ⟨.refl h o, fun _ => rfl, rfl⟩

lemma trans (halters : Alters canonical h h' o) (halters' : Alters canonical h' h'' o) :
    Alters canonical h h'' o :=
  ⟨halters.toChanges.trans halters'.toChanges,
    fun x => (halters'.sameKinds.kinds x).trans (halters.sameKinds.kinds x),
    halters'.sameKinds.next.trans halters.sameKinds.next⟩

section Writes

variable {f : OseoOrdinaryObject → OseoOrdinaryObject}

section
variable (hkind : (f (h.object o)).kind = (h.object o).kind)
  (hstored : WellStored canonical (h.object o) → WellStored canonical (f (h.object o)))
include hkind hstored

lemma of_layout (hdictionary : (h.object o).dictionary = true → (f (h.object o)).dictionary = true)
    (hlayout : SameLayout (h.object o) (f (h.object o))) : Alters canonical h (h.setObject o f) o :=
  ⟨.of_layout hstored hdictionary hlayout, .setObject hkind⟩

lemma of_shape :
    Alters canonical h ((h.setObject o f).newShape o) o := by
  have hshape := @SameKinds.setObject (h.setObject o f) o
    (fun object => { object with shapeId := h.nextShapeId }) rfl
  have hwrite := SameKinds.setObject hkind
  exact ⟨.of_shape hstored, fun x => (hshape.kinds x).trans (hwrite.kinds x), rfl⟩

lemma of_dictionary :
    Alters canonical h ((h.setObject o f).newDictionary o) o := by
  unfold Heap.newDictionary
  rw [setObject_setObject]
  exact of_shape hkind fun hwell => (hstored hwell).newDictionary

end

lemma of_core (hcore : (f (h.object o)).core = (h.object o).core) :
    Alters canonical h (h.setObject o f) o := by
  refine ⟨.of_core hcore, .setObject ?_⟩
  simp only [OseoOrdinaryObject.core, Prod.mk.injEq] at hcore
  exact hcore.1.1

end Writes

lemma congr {h₁ h₁' : Heap} (halters : Alters canonical h h' o) (hobject : h₁.object = h.object)
    (hnext : h₁.nextShapeId = h.nextShapeId) (hcreated : h₁.nextObject = h.nextObject)
    (hobject' : h₁'.object = h'.object) (hnext' : h₁'.nextShapeId = h'.nextShapeId)
    (hcreated' : h₁'.nextObject = h'.nextObject) : Alters canonical h₁ h₁' o := by
  refine ⟨halters.toChanges.congr hobject hnext hobject' hnext', fun x => ?_, ?_⟩
  · rw [hobject, hobject', halters.sameKinds.kinds]
  · rw [hcreated, hcreated', halters.sameKinds.next]

/-- The bindings are no part of the objects. -/
lemma of_objects (hobject : h'.object = h.object) (hnext : h'.nextShapeId = h.nextShapeId)
    (hcreated : h'.nextObject = h.nextObject) : Alters canonical h h' o :=
  (refl h o).congr rfl rfl rfl hobject hnext hcreated

end Alters

/-! ## Reserved keys -/

/-- Only strings are answered without the vector. -/
lemma reserved_symbol (object : OseoOrdinaryObject) (symbol : KeyedCollections.Symbol) :
    reserved canonical object (.symbol symbol) = false := by
  simp [reserved, lengthKey, prototypeKey, legacyLiveKey, callerKey, argumentsKey,
    typedArrayNumericKey]

/-- The realm's own symbol for a key is as good as the key. -/
lemma localSymbol_ok (hlocal : localSymbol memory key = .ok key') :
    propertyKeyEqual key' key = true ∧
      ∀ object, reserved canonical object key' = reserved canonical object key := by
  unfold localSymbol at hlocal
  split at hlocal
  · next ref entry =>
    cases hrepresentative : memory.representative entry with
    | error outcome =>
      rw [hrepresentative] at hlocal
      cases hlocal
    | ok ref' =>
      rw [hrepresentative] at hlocal
      cases hlocal
      refine ⟨by simp [propertyKeyEqual, sameRegisteredSymbol], fun object => ?_⟩
      rw [reserved_symbol, reserved_symbol]
  · cases hlocal
    exact ⟨propertyKeyEqual_refl _, fun _ => rfl⟩

lemma scan_none_of_equal (h : scanProperties object key = none)
    (hequal : propertyKeyEqual key' key = true) : scanProperties object key' = none := by
  rw [scanProperties_eq_none] at h ⊢
  intro stored hstored
  rw [propertyKeyEqual_congr hequal]
  exact h stored hstored

/-- An array index is none of the keys an array answers itself. -/
lemma reserved_arrayIndex (hkind : object.kind = .array) (hkey : arrayIndex key = some index) :
    reserved canonical object key = false := by
  have hlength : key ≠ lengthKey := by
    rintro rfl
    simp [arrayIndex, lengthKey, arrayIndexDigits] at hkey
  simp [reserved, functionHasPrototypeProperty, legacyLiveKey, hkind, hlength]

/-! ## Storage -/

lemma growProperties_ok (hgrow : growProperties object memory = .ok object') :
    ∃ capacity, object' = { object with propertyCapacity := capacity } := by
  unfold growProperties at hgrow
  split at hgrow
  · cases hgrow
    exact ⟨_, rfl⟩
  · dsimp only at hgrow
    generalize (if object.propertyCapacity = 0 then 4
      else object.propertyCapacity * 2 % (sizeMax + 1)) = capacity at hgrow
    split at hgrow
    · cases hgrow
    · split at hgrow
      · cases hgrow
      · cases hgrow
        exact ⟨capacity, rfl⟩

lemma growProperties_core (hgrow : growProperties object memory = .ok object') :
    object'.core = object.core := by
  obtain ⟨capacity, rfl⟩ := growProperties_ok hgrow
  rfl

lemma appendPropertySlot_le (object : OseoOrdinaryObject) (replacesVirtual : Bool) :
    appendPropertySlot object replacesVirtual ≤ object.properties.length := by
  unfold appendPropertySlot
  split
  · cases hfind : object.properties.findIdx? fun property => property.key.isSymbol with
    | none => exact Nat.le_refl _
    | some slot =>
      obtain ⟨hlt, -⟩ := List.findIdx?_eq_some_iff_getElem.mp hfind
      exact Nat.le_of_lt hlt
  · exact Nat.le_refl _

lemma le_extendedLength (object : OseoOrdinaryObject) (key : PropertyKey) :
    object.arrayLength ≤ extendedLength object key := by
  unfold extendedLength
  split
  · exact Nat.le_refl _
  · next index hindex =>
    split
    · next hextends =>
      simp only [extendsArray, hindex, Option.any_some, Bool.and_eq_true, decide_eq_true_eq]
        at hextends
      omega
    · exact Nat.le_refl _

/-- An array's new index is below its new length. -/
lemma lt_extendedLength (hkind : object.kind = .array) (hkey : arrayIndex key = some index) :
    index < extendedLength object key := by
  unfold extendedLength
  rw [hkey]
  dsimp only
  split
  · omega
  · next hextends =>
    simp only [extendsArray, hkind, hkey, decide_true, Bool.true_and, Option.any_some,
      decide_eq_true_eq] at hextends
    omega

lemma extendedLength_le (hbounded : object.arrayLength ≤ uint32Max) (key : PropertyKey) :
    extendedLength object key ≤ uint32Max := by
  unfold extendedLength
  split
  · exact hbounded
  · next index hindex =>
    have := arrayIndex_bound hindex
    split
    · unfold uint32Max
      omega
    · exact hbounded

/-- A new length above all indices. -/
lemma WellStored.relength (hstored : WellStored canonical object) {length : ℕ}
    (hbelow : object.kind = .array → ∀ key ∈ object.keys, ∀ i, arrayIndex key = some i →
      i < length) (hbounded : length ≤ uint32Max) :
    WellStored canonical { object with arrayLength := length } :=
  ⟨hstored.distinct, hstored.run, hbelow, hbounded, hstored.free, hstored.proxy⟩

/-- A length that takes in one more key. -/
lemma WellStored.extend (hstored : WellStored canonical object) (key : PropertyKey) :
    WellStored canonical { object with arrayLength := extendedLength object key } := by
  apply hstored.relength
  · intro hkind stored hkey i hi
    exact Nat.lt_of_lt_of_le (hstored.below hkind stored hkey i hi) (le_extendedLength object key)
  · exact extendedLength_le hstored.bounded key

/-- An insertion is the same before and after the length is written. -/
lemma insertProperty_length (object : OseoOrdinaryObject) (slot length : ℕ)
    (property : OseoProperty) :
    { insertProperty object slot property with arrayLength := length } =
      insertProperty { object with arrayLength := length } slot property := by
  unfold insertProperty notePropertyInserted
  dsimp only
  repeat' split
  all_goals rfl

/-- A definition of an absent key adds it to the vector. -/
theorem WellStored.append (hstored : WellStored canonical object)
    (habsent : scanProperties object property.key = none)
    (hfree : reserved canonical object property.key = false) (replacesVirtual : Bool) :
    WellStored canonical (appendProperty object replacesVirtual property) := by
  have hinserted := (hstored.extend property.key).insert habsent hfree
    (fun hkind i hi => lt_extendedLength hkind hi) (appendPropertySlot_le object replacesVirtual)
  rw [← insertProperty_length] at hinserted
  exact hinserted.of_core rfl

/-- A property that is redefined keeps its slot. -/
lemma WellStored.redefine (hstored : WellStored canonical object)
    (hget : object.properties[slot]? = some property) {property' : OseoProperty}
    (hkey : property'.key = property.key) :
    WellStored canonical (redefineProperty object slot property') := by
  refine (hstored.extend property'.key).congr ?_ rfl rfl rfl rfl
    rfl (fun _ hfree => hfree) fun hdict => hdict
  exact keys_set hget hkey

end Oseo.PropertyStorage
