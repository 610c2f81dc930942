import Oseo.PropertyStorage.DefinitionOperations

/-!
# Writing an array length deletes elements in descending order

The truncation of an array, by the descending search or by the dense shortcut, leaves the array
that the deletions of ArraySetLength leave.
-/

namespace Oseo.PropertyStorage

open Option
open List
open Oseo.Library (Number)

variable {canonical : List ℕ → Bool} {h h' : Heap} {o : ℕ} {object object' : OseoOrdinaryObject}
  {property : OseoProperty} {properties : List OseoProperty}
  {slot index bound requested rounds : ℕ}

/-! ## The conversion -/

lemma lengthModulus_is : lengthModulus.Is ((4294967296 : ℤ) : ℚ) :=
  Number.ofInt_is (by norm_num)

lemma toUint32_is {number : Number} {n : ℤ} (hnumber : number.Is n) (hsign : 0 ≤ n)
    (hbound : n < 4294967296) : ((toUint32 number).val : ℤ) = n := by
  obtain ⟨x, rfl, hx⟩ := hnumber
  show ((Fin.ofNat (2 ^ 32) (Number.truncated x.value).toNat).val : ℤ) = n
  rw [hx, Number.truncated_intCast, Fin.val_ofNat, Nat.mod_eq_of_lt (by omega)]
  omega

lemma belowZero_is {number : Number} {n : ℤ} (hnumber : number.Is n) :
    belowZero number = decide (n < 0) := by
  obtain ⟨x, rfl, hx⟩ := hnumber
  show decide (x.value < 0) = _
  rw [hx]
  norm_cast

/-- `uint32_length` is ToUint32. -/
lemma uint32Length_eq (number : Number) : ((uint32Length number).val : ℤ) = uint32Of number := by
  cases number with
  | nan => rfl
  | infinite negative => rfl
  | finite x =>
    dsimp only [uint32Length, uint32Of]
    split
    · next hzero =>
      rw [hzero]
      norm_num [Number.truncated]
    · have hmodulo := (Number.trunc_is x).fmod_int lengthModulus_is (by norm_num) (by norm_num)
      have hlow := Int.tmod_lt_of_pos (-Number.truncated x.value) (by omega : 0 < (4294967296 : ℤ))
      have hhigh := Int.tmod_lt_of_pos (Number.truncated x.value) (by omega : 0 < (4294967296 : ℤ))
      rw [Int.neg_tmod] at hlow
      rw [belowZero_is hmodulo]
      -- The remainder takes the sign of the dividend.
      have hdiv := Int.mul_tdiv_add_tmod (Number.truncated x.value) 4294967296
      by_cases hneg : (Number.truncated x.value).tmod 4294967296 < 0
      · rw [decide_eq_true hneg, if_pos rfl]
        have hsum := hmodulo.add_int lengthModulus_is (by rw [abs_le]; omega)
        rw [toUint32_is hsum (by omega) (by omega)]
        omega
      · rw [decide_eq_false hneg, if_neg Bool.false_ne_true,
          toUint32_is hmodulo (by omega) (by omega)]
        omega

/-- The conversions of ArraySetLength are those of the runtime. -/
lemma convertLength_eq (first second : Conversion) (h : Heap) :
    convertLength first second h =
      ((toArrayLength first second h).1,
        (toArrayLength first second h).2.map fun requested => (requested.val : ℤ)) := by
  unfold convertLength toArrayLength
  split
  · rfl
  · next uint32 _ =>
    rw [← uint32Length_eq uint32]
    split
    · rfl
    · dsimp only
      split <;> rfl

/-! ## Deletions -/

/-- A vector without an element of this index. -/
lemma deleteElement_absent (habsent : ∀ property ∈ properties, arrayIndex property.key ≠ some index) :
    deleteElement index properties = some properties := by
  unfold deleteElement
  have hnone : properties.find? (fun property => arrayIndex property.key = some index) = none := by
    rw [find?_eq_none]
    intro property hmem
    simpa using habsent property hmem
  rw [hnone]

/-- One slot is all a filter takes away. -/
lemma filter_eq_eraseIdx {α : Type} {kept : α → Bool} {items : List α} {slot : ℕ} {item : α}
    (hget : items[slot]? = some item) (hitem : kept item = false)
    (hothers : ∀ j other, items[j]? = some other → kept other = false → j = slot) :
    items.filter kept = items.eraseIdx slot := by
  induction items generalizing slot with
  | nil => rfl
  | cons head rest ih =>
    cases slot with
    | zero =>
      obtain rfl : head = item := some.inj hget
      rw [filter_cons_of_neg (by simp [hitem]), eraseIdx_zero, tail_cons,
        filter_eq_self]
      intro other hmem
      obtain ⟨j, hj⟩ := mem_iff_getElem?.mp hmem
      rw [← Bool.not_eq_false]
      intro hother
      have := hothers (j + 1) other hj hother
      omega
    | succ slot =>
      have hhead : kept head = true := by
        rw [← Bool.not_eq_false]
        intro hhead
        have := hothers 0 head rfl hhead
        omega
      rw [filter_cons_of_pos hhead, eraseIdx_cons_succ]
      congr 1
      apply ih hget
      intro j other hj hother
      have := hothers (j + 1) other hj hother
      omega

/-- The element of an index, in the one slot that has it. -/
lemma deleteElement_slot (hget : properties[slot]? = some property)
    (hindex : arrayIndex property.key = some index)
    (hunique : ∀ j other, properties[j]? = some other → arrayIndex other.key = some index →
      j = slot) :
    deleteElement index properties =
      if property.attributes.configurable then some (properties.eraseIdx slot) else none := by
  have hfind : properties.find? (fun property => arrayIndex property.key = some index) =
      some property := by
    cases hfound : properties.find? fun property => arrayIndex property.key = some index with
    | none =>
      rw [find?_eq_none] at hfound
      have := hfound property (mem_of_getElem? hget)
      simp [hindex] at this
    | some other =>
      have hother := find?_some hfound
      obtain ⟨j, hj⟩ := mem_iff_getElem?.mp (mem_of_find?_eq_some hfound)
      obtain rfl := hunique j other hj (by simpa using hother)
      rw [← hj, hget]
  unfold deleteElement
  rw [hfind]
  rw [filter_eq_eraseIdx hget (by simp [hindex]) fun j other hj hother =>
    hunique j other hj (by simpa using hother)]

/-- Nothing is deleted where all indices are below the least one. -/
lemma deleteElements_below (hbelow : ∀ property ∈ properties, ∀ i,
    arrayIndex property.key = some i → i < requested) (bound : ℕ) :
    deleteElements requested bound properties = (properties, none) := by
  induction bound with
  | zero => rfl
  | succ bound ih =>
    rw [deleteElements]
    split
    · rfl
    · rw [deleteElement_absent fun property hmem hindex => ?_]
      · exact ih
      · have := hbelow property hmem bound hindex
        omega

/-- The deletions start at the largest index. -/
lemma deleteElements_skip (hle : ∀ property ∈ properties, ∀ i,
    arrayIndex property.key = some i → i ≤ index) (hrequested : requested ≤ index)
    (hbound : index < bound) :
    deleteElements requested bound properties =
      deleteElements requested (index + 1) properties := by
  induction bound with
  | zero => omega
  | succ bound ih =>
    by_cases heq : bound = index
    · rw [heq]
    · rw [deleteElements, if_neg (by omega), deleteElement_absent fun property hmem hindex => ?_]
      · exact ih (by omega)
      · have := hle property hmem bound hindex
        omega

/-! ## The descending search -/

/-- What the search finds is in the vector. -/
lemma selectElement_get {selected : Option (ℕ × ℕ)} {found : ℕ × ℕ}
    (hselect : selectElement requested index selected properties = some found) :
    selected = some found ∨ ∃ slot property, found.1 = index + slot ∧
      properties[slot]? = some property ∧ arrayIndex property.key = some found.2 := by
  induction properties generalizing index selected with
  | nil => exact .inl hselect
  | cons property rest ih =>
    have hrest : ∀ {selected : Option (ℕ × ℕ)},
        selectElement requested (index + 1) selected rest = some found →
        selected = some found ∨ ∃ slot other, found.1 = index + slot ∧
          (property :: rest)[slot]? = some other ∧ arrayIndex other.key = some found.2 := by
      intro selected hselect
      rcases ih hselect with hkept | ⟨slot, other, hslot, hget, hindex⟩
      · exact .inl hkept
      · refine .inr ⟨slot + 1, other, ?_, hget, hindex⟩
        omega
    rw [selectElement] at hselect
    split at hselect
    · exact hrest hselect
    · next propertyIndex hkey =>
      split at hselect
      · rcases hrest hselect with hfound | hlater
        · cases hfound
          exact .inr ⟨0, property, rfl, rfl, hkey⟩
        · exact .inr hlater
      · exact hrest hselect

/-- The vector holds an index in one slot. -/
lemma WellStored.index_unique (hstored : WellStored canonical object)
    (hget : object.properties[slot]? = some property)
    (hindex : arrayIndex property.key = some index) (j : ℕ) (other : OseoProperty)
    (hj : object.properties[j]? = some other) (hother : arrayIndex other.key = some index) :
    j = slot := by
  apply hstored.slot_unique _ _ (propertyKeyEqual_of_arrayIndex hother hindex)
  · rw [getElem?_keys, hj, map_some]
  · rw [getElem?_keys, hget, map_some]

lemma removeProperty_state (hremove : removeProperty object slot = some object') :
    arrayState object' =
      { arrayState object with properties := object.properties.eraseIdx slot } := by
  obtain ⟨property, base, count, known, -, -, rfl, -⟩ := removeProperty_some hremove
  rfl

/-- A removal fails at a property that is not configurable, and only there. -/
lemma removeProperty_get (hget : object.properties[slot]? = some property) :
    (property.attributes.configurable = false ∧ removeProperty object slot = none) ∨
      (property.attributes.configurable = true ∧ ∃ object',
        removeProperty object slot = some object' ∧
        arrayState object' =
          { arrayState object with properties := object.properties.eraseIdx slot }) := by
  cases hconfigurable : property.attributes.configurable with
  | false =>
    left
    refine ⟨rfl, ?_⟩
    unfold removeProperty
    rw [hget]
    simp [hconfigurable]
  | true =>
    right
    refine ⟨rfl, ?_⟩
    cases hremove : removeProperty object slot with
    | none =>
      exfalso
      unfold removeProperty at hremove
      rw [hget] at hremove
      dsimp only at hremove
      rw [if_neg (by simp [hconfigurable])] at hremove
      repeat' split at hremove
      all_goals cases hremove
    | some object' => exact ⟨object', rfl, removeProperty_state hremove⟩

/-- The array that deletions leave. -/
def ArrayState.deleted (array : ArrayState) (deletions : List OseoProperty × Option ℕ) :
    ArrayState :=
  { array with
    properties := deletions.1
    length := (deletions.2.map (· + 1)).getD array.length }

/-- The descending search removes what ArraySetLength deletes, and stops where a deletion fails. -/
lemma truncateElements_deletes (hstored : WellStored canonical object)
    (hrounds : object.properties.length < rounds)
    (hbound : ∀ property ∈ object.properties, ∀ i, arrayIndex property.key = some i → i < bound)
    (removed : Bool) :
    (truncateElements requested rounds object removed).stopped =
        (deleteElements requested bound object.properties).2.isSome ∧
      arrayState (truncateElements requested rounds object removed).array =
        (arrayState object).deleted (deleteElements requested bound object.properties) := by
  induction rounds generalizing object bound removed with
  | zero => omega
  | succ rounds ih =>
    rw [truncateElements]
    split
    · next hnone =>
      rw [deleteElements_below (selectElement_none hnone).2]
      exact ⟨rfl, rfl⟩
    · next selected selectedIndex hsome =>
      obtain ⟨hrequested, -, hle⟩ := selectElement_some hsome (by simp)
      obtain ⟨slot, property, hslot, hget, hindex⟩ :=
        (selectElement_get hsome).resolve_left (by simp)
      obtain rfl : selected = slot := by simpa using hslot
      have hunique := hstored.index_unique hget hindex
      have hlt := hbound property (mem_of_getElem? hget) selectedIndex hindex
      rw [deleteElements_skip hle hrequested.1 hlt, deleteElements, if_neg (by omega),
        deleteElement_slot hget hindex hunique]
      rcases removeProperty_get hget with ⟨hfixed, hremove⟩ | ⟨hfree, array, hremove, harray⟩
      · rw [hremove, hfixed]
        exact ⟨rfl, rfl⟩
      · rw [hremove, hfree]
        have hproperties : array.properties = object.properties.eraseIdx selected :=
          congrArg ArrayState.properties harray
        have hlength := length_removeProperty hremove
        have hsmaller : ∀ property ∈ array.properties, ∀ i,
            arrayIndex property.key = some i → i < selectedIndex := by
          intro other hmem i hi
          rw [hproperties] at hmem
          have hother := mem_of_mem_eraseIdx hmem
          have hlast := hle other hother i hi
          -- The largest index itself is gone.
          by_contra hge
          obtain rfl : i = selectedIndex := by omega
          obtain ⟨j, hne, hj⟩ := mem_eraseIdx_iff_getElem?.mp hmem
          exact hne (hunique j other hj hi)
        obtain ⟨hstop, hleft⟩ := ih (hstored.remove hremove) (by omega) hsmaller true
        rw [hproperties] at hstop hleft
        refine ⟨hstop, ?_⟩
        rw [hleft, harray]
        rfl

/-! ## The dense truncation -/

lemma DenseElements.index_lt (hdense : DenseElements object) :
    ∀ property ∈ object.properties, ∀ i, arrayIndex property.key = some i →
      i < object.properties.length := by
  intro property hmem i hi
  obtain ⟨slot, hslot⟩ := mem_iff_getElem?.mp hmem
  have := (hdense slot property hslot).2
  rw [hi] at this
  cases this
  exact (List.getElem?_eq_some_iff.mp hslot).1

lemma DenseElements.deleteElements_done (hdense : DenseElements object)
    (hle : object.properties.length ≤ requested) :
    deleteElements requested bound object.properties = (object.properties, none) := by
  refine deleteElements_below (fun property hmem i hi => ?_) bound
  have := hdense.index_lt property hmem i hi
  omega

/-- Removing the last properties is deleting in descending order. -/
lemma removeTail_deletes (hdense : DenseElements object)
    (hrounds : object.properties.length ≤ requested + rounds)
    (hbound : object.properties.length ≤ bound) :
    deleteElements requested bound object.properties =
        ((removeTail requested rounds object).properties, none) ∧
      arrayState (removeTail requested rounds object) =
        { arrayState object with properties := (removeTail requested rounds object).properties } := by
  induction rounds generalizing object bound with
  | zero => exact ⟨hdense.deleteElements_done (by omega), rfl⟩
  | succ rounds ih =>
    rw [removeTail]
    split
    · have hlast : object.properties.length - 1 < object.properties.length := by omega
      have hget := getElem?_eq_getElem hlast
      obtain ⟨hconfigurable, hindex⟩ := hdense _ _ hget
      obtain ⟨object', hremove, hdense'⟩ := hdense.remove_last (by omega)
      have hlength := length_removeProperty hremove
      have harray := removeProperty_state hremove
      have hproperties : object'.properties =
          object.properties.eraseIdx (object.properties.length - 1) :=
        congrArg ArrayState.properties harray
      have hle : ∀ property ∈ object.properties, ∀ i, arrayIndex property.key = some i →
          i ≤ object.properties.length - 1 := by
        intro property hmem i hi
        have := hdense.index_lt property hmem i hi
        omega
      rw [hremove, getD_some]
      obtain ⟨hdelete, hstate⟩ := @ih object' (object.properties.length - 1) hdense' (by omega)
        (by omega)
      rw [hstate, harray]
      refine ⟨?_, rfl⟩
      rw [deleteElements_skip hle (by omega) (by omega), deleteElements, if_neg (by omega),
        deleteElement_slot hget hindex, hconfigurable, if_pos rfl, ← hproperties]
      · exact hdelete
      · intro j other hj hother
        have := (hdense j other hj).2
        rw [hother] at this
        exact (some.inj this).symm
    · exact ⟨hdense.deleteElements_done (by omega), rfl⟩

/-- The dense truncation removes what ArraySetLength deletes. -/
lemma truncateDenseElements_deletes (hbound : object.arrayLength ≤ bound)
    (htruncate : truncateDenseElements object requested = some object') :
    arrayState object' =
      (arrayState object).deleted (deleteElements requested bound object.properties) ∧
      (deleteElements requested bound object.properties).2 = none := by
  unfold truncateDenseElements at htruncate
  split at htruncate
  · cases htruncate
  · next hshort =>
    split at htruncate
    · next hall =>
      cases htruncate
      simp only [Bool.or_eq_true, decide_eq_true_eq, not_or] at hshort
      have hdense : DenseElements object := by
        intro slot property hslot
        obtain ⟨hlt, -⟩ := List.getElem?_eq_some_iff.mp hslot
        have helement := List.all_eq_true.mp hall slot (List.mem_range.mpr hlt)
        rw [hslot] at helement
        simp only [any_some, Bool.and_eq_true, decide_eq_true_eq] at helement
        exact ⟨helement.1.2, helement.2⟩
      obtain ⟨hdelete, hstate⟩ := @removeTail_deletes object bound requested
        object.properties.length hdense (by omega) (by omega)
      rw [hdelete, hstate]
      exact ⟨rfl, rfl⟩
    · cases htruncate

/-! ## The new length -/

lemma deleteElements_index (hfailed : (deleteElements requested bound properties).2 = some index) :
    requested ≤ index := by
  induction bound generalizing properties with
  | zero => cases hfailed
  | succ bound ih =>
    rw [deleteElements] at hfailed
    split at hfailed
    · cases hfailed
    · split at hfailed
      · cases hfailed
        omega
      · exact ih hfailed

/-- ArraySetLength of an assignment that makes the array no shorter. -/
lemma ArrayState.setLength_of_le {array : ArrayState} (hle : array.length ≤ requested) :
    array.setLength requested .assigned =
      if array.lengthWritable || requested = array.length then
        ({ array with length := requested }, true)
      else (array, false) := by
  unfold setLength
  rw [if_pos hle]
  unfold define
  cases hwritable : array.lengthWritable with
  | true => simp [LengthDescriptor.assigned]
  | false =>
    by_cases heq : requested = array.length
    · simp [LengthDescriptor.assigned, heq]
    · simp [LengthDescriptor.assigned, heq]

/-- ArraySetLength of an assignment that makes the array shorter. -/
lemma ArrayState.setLength_of_lt {array : ArrayState} (hlt : requested < array.length) :
    array.setLength requested .assigned =
      if array.lengthWritable then
        (({ array with length := requested } : ArrayState).deleted
            (deleteElements requested array.length array.properties),
          (deleteElements requested array.length array.properties).2.isNone)
      else (array, false) := by
  unfold setLength
  rw [if_neg (by omega)]
  cases hwritable : array.lengthWritable with
  | false => rfl
  | true =>
    rw [Bool.not_true, if_neg Bool.false_ne_true]
    simp [define, LengthDescriptor.assigned, hwritable]
    generalize deleteElements requested array.length array.properties = deletions
    obtain ⟨properties, _ | index⟩ := deletions <;> rfl

/-- ArraySetLength has the requested length exactly when it succeeds. -/
lemma ArrayState.setLength_length (array : ArrayState) (requested : ℕ) :
    (array.setLength requested .assigned).2 =
      decide ((array.setLength requested .assigned).1.length = requested) := by
  by_cases hle : array.length ≤ requested
  · rw [setLength_of_le hle]
    split
    · simp
    · next hkept =>
      simp only [Bool.or_eq_true, decide_eq_true_eq, not_or] at hkept
      simp [Ne.symm hkept.2]
  · rw [setLength_of_lt (by omega)]
    split
    · cases hfailed : (deleteElements requested array.length array.properties).2 with
      | none => simp [deleted, hfailed]
      | some index =>
        have := deleteElements_index hfailed
        simp only [deleted, hfailed, isNone_some, map_some, getD_some]
        rw [eq_comm, decide_eq_false_iff_not]
        omega
    · have hne : array.length ≠ requested := by omega
      simp [hne]

/-- A descriptor that asserts what the length is not. -/
def LengthDescriptor.Contradicts (descriptor : LengthDescriptor) (array : ArrayState) : Prop :=
  descriptor.configurable = some true ∨ descriptor.enumerable = some true ∨
    array.lengthWritable = false ∧ descriptor.writable = some true

lemma LengthDescriptor.not_contradicts_assigned {array : ArrayState} :
    ¬LengthDescriptor.assigned.Contradicts array := by
  simp [Contradicts, assigned]

section
variable {array : ArrayState} {descriptor : LengthDescriptor}

lemma ArrayState.define_none (hcontradicts : descriptor.Contradicts array) (length : Option ℕ) :
    array.define length descriptor = none := by
  unfold define
  rcases hcontradicts with hconfigurable | henumerable | ⟨hwritable, hdescriptor⟩
  · simp [hconfigurable]
  · simp [henumerable]
  · simp [hwritable, hdescriptor]

lemma ArrayState.setLength_contradicted (hcontradicts : descriptor.Contradicts array) :
    array.setLength requested descriptor = (array, false) := by
  unfold setLength
  split
  · rw [define_none hcontradicts]
  · split
    · rfl
    · next hwritable =>
      have hnone := fun writable => @define_none array { descriptor with writable } (by
        rcases hcontradicts with hconfigurable | henumerable | ⟨hreadOnly, -⟩
        · exact .inl hconfigurable
        · exact .inr (.inl henumerable)
        · simp [hreadOnly] at hwritable) (some requested)
      simp only [hnone]

/-- A read-only length keeps its value, and accepts no other one. -/
lemma ArrayState.setLength_readOnly
    (hwritable : array.lengthWritable = false) (hagrees : ¬descriptor.Contradicts array) :
    array.setLength requested descriptor = (array, decide (requested = array.length)) := by
  simp only [LengthDescriptor.Contradicts, not_or, hwritable, true_and] at hagrees
  obtain ⟨hconfigurable, henumerable, hdescriptor⟩ := hagrees
  have hkept : descriptor.writable.getD false = false := by
    rcases hfield : descriptor.writable with _ | _ | _
    · rfl
    · rfl
    · exact absurd hfield hdescriptor
  unfold setLength
  split
  · by_cases heq : requested = array.length
    · subst heq
      unfold define
      simp [hconfigurable, henumerable, hdescriptor, hwritable, hkept]
      simp [← hwritable]
    · unfold define
      simp [heq, hwritable]
  · rw [hwritable, Bool.not_false, if_pos rfl, decide_eq_false (by omega)]

/-- A descriptor without contradiction only adds its being writable to an assignment. -/
lemma ArrayState.setLength_descriptor (hagrees : ¬descriptor.Contradicts array) :
    array.setLength requested descriptor =
      ({ (array.setLength requested .assigned).1 with
          lengthWritable := descriptor.writable.getD array.lengthWritable },
        (array.setLength requested .assigned).2) := by
  cases hwritable : array.lengthWritable with
  | false =>
    rw [setLength_readOnly hwritable hagrees,
      setLength_readOnly hwritable LengthDescriptor.not_contradicts_assigned]
    simp only [LengthDescriptor.Contradicts, not_or, hwritable, true_and] at hagrees
    rcases hfield : descriptor.writable with _ | _ | _
    · simp [← hwritable]
    · simp [← hwritable]
    · exact absurd hfield hagrees.2.2
  | true =>
    obtain ⟨hasValue, configurable, enumerable, writable⟩ := descriptor
    simp only [LengthDescriptor.Contradicts, not_or] at hagrees
    obtain ⟨hconfigurable, henumerable, -⟩ := hagrees
    by_cases hle : array.length ≤ requested
    · rw [setLength_of_le hle]
      unfold setLength
      rw [if_pos hle]
      unfold define
      simp [hwritable, hconfigurable, henumerable]
    · rw [setLength_of_lt (by omega)]
      unfold setLength
      rw [if_neg hle]
      simp [define, hwritable, hconfigurable, henumerable]
      generalize deleteElements requested array.length array.properties = deletions
      obtain ⟨properties, _ | index⟩ := deletions <;>
        rcases writable with _ | _ | _ <;> simp [deleted]

end

/-- An assignment keeps the length writable, or read-only. -/
lemma ArrayState.setLength_keeps (array : ArrayState) (requested : ℕ) :
    (array.setLength requested .assigned).1.lengthWritable = array.lengthWritable := by
  by_cases hle : array.length ≤ requested
  · rw [setLength_of_le hle]
    split <;> rfl
  · rw [setLength_of_lt (by omega)]
    split <;> rfl

/-! ## The runtime writes the length -/

lemma newDictionary_self (h : Heap) (o : ℕ) :
    arrayState ((h.newDictionary o).object o) = arrayState (h.object o) := by
  unfold Heap.newDictionary
  rw [newShape_self, setObject_self]
  rfl

lemma finishArrayLength_state (h : Heap) (o : ℕ) (array : OseoOrdinaryObject) (requested : ℕ) :
    arrayState ((finishArrayLength h o array requested).object o) =
      { arrayState array with length := requested } := by
  unfold finishArrayLength
  rw [newDictionary_self, setObject_self]
  rfl

/-- How the runtime reports that it wrote the converted length, or did not. -/
def lengthOutcome (array : OseoOrdinaryObject) (value : Value) (strict written : Bool) : Outcome :=
  if written || !strict then .normal value
  else if array.lengthWritable then .typeError "Cannot truncate past a non-configurable element."
  else .typeError "Cannot assign to the read-only array length."

/-- From the conversion on, the runtime leaves the array that ArraySetLength leaves. It reports the
same as well, but for the length a read-only array already has. -/
lemma setArrayLengthConverted_eq (hstored : WellStored canonical (h.object o))
    (hkind : (h.object o).kind = .array) (value : Value) (requested : ℕ)
    (strict allowSameValue : Bool) :
    let prescribed := (arrayState (h.object o)).setLength requested .assigned
    arrayState ((setArrayLengthConverted h o value requested strict allowSameValue).1.object o) =
        prescribed.1 ∧
      (setArrayLengthConverted h o value requested strict allowSameValue).2 =
        lengthOutcome (h.object o) value strict
          (prescribed.2 && ((h.object o).lengthWritable || allowSameValue)) := by
  have hbelow : ∀ property ∈ (h.object o).properties, ∀ i, arrayIndex property.key = some i →
      i < (h.object o).arrayLength :=
    fun property hmem => hstored.below hkind property.key (mem_map_of_mem hmem)
  unfold setArrayLengthConverted
  dsimp only
  cases hwritable : (h.object o).lengthWritable with
  | false =>
    rw [ArrayState.setLength_readOnly hwritable LengthDescriptor.not_contradicts_assigned]
    by_cases hsame : requested = (h.object o).arrayLength
    · cases allowSameValue <;> cases strict <;> simp [lengthOutcome, hwritable, hsame, arrayState]
    · cases strict <;> simp [lengthOutcome, hwritable, hsame, arrayState]
  | true =>
    rw [if_neg (by simp), Bool.true_or, Bool.and_true]
    have hstate : (arrayState (h.object o)).lengthWritable = true := hwritable
    by_cases hle : (h.object o).arrayLength ≤ requested
    · rw [if_pos hle, ArrayState.setLength_of_le hle, if_pos (by rw [hstate]; rfl)]
      exact ⟨finishArrayLength_state .., rfl⟩
    · rw [if_neg hle, ArrayState.setLength_of_lt (not_le.mp hle), if_pos hstate]
      show _ = (ArrayState.deleted _ (deleteElements requested (h.object o).arrayLength
        (h.object o).properties)) ∧ _ = lengthOutcome _ _ _ (deleteElements requested
          (h.object o).arrayLength (h.object o).properties).2.isNone
      split
      · next truncated htruncate =>
        obtain ⟨hleft, hnone⟩ := truncateDenseElements_deletes (Nat.le_refl _) htruncate
        refine ⟨?_, ?_⟩
        · rw [finishArrayLength_state, hleft]
          simp [ArrayState.deleted, hnone]
        · rw [hnone]
          rfl
      · obtain ⟨hstopped, hleft⟩ :=
          truncateElements_deletes hstored (Nat.lt_succ_self _) hbelow false
        rw [hstopped]
        cases hfailed : (deleteElements requested (h.object o).arrayLength
            (h.object o).properties).2 with
        | none =>
          refine ⟨?_, rfl⟩
          rw [isSome_none, if_neg Bool.false_ne_true, finishArrayLength_state, hleft]
          simp [ArrayState.deleted, hfailed]
        | some index =>
          rw [isSome_some, if_pos rfl]
          refine ⟨?_, ?_⟩
          · dsimp only
            split
            · rw [newDictionary_self, setObject_self, hleft]
              simp [ArrayState.deleted, hfailed]
            · rw [setObject_self, hleft]
              simp [ArrayState.deleted, hfailed]
          · cases strict <;> simp [lengthOutcome, hwritable]

/-- The end of `define_data_property` for the `length` of an array: it is told from the length
whether the elements could be deleted. -/
def settleLength (changed : Heap) (o requested : ℕ) (writable : Bool) : Heap × Outcome :=
  if (changed.object o).arrayLength ≠ requested then
    if (changed.object o).lengthWritable then
      (if writable then changed
        else changed.setObject o fun object => { object with lengthWritable := false },
        .refused "Cannot truncate past a non-configurable element.")
    else (changed, .refused "Cannot redefine the array length property.")
  else (changed.setObject o fun object => { object with lengthWritable := writable },
    .normal (.object o))

lemma defineArrayLength_ok (h : Heap) (o : ℕ) (value : Value) (attributes : OseoPropertyAttributes)
    (absentWritable : Bool) (requested : Fin (2 ^ 32)) :
    defineArrayLength h o value attributes true absentWritable (.ok requested) =
      let writable := if absentWritable then (h.object o).lengthWritable else attributes.writable
      if attributes.configurable || attributes.enumerable ||
          (!(h.object o).lengthWritable && writable) then
        (h, .refused "Cannot redefine the array length property.")
      else settleLength (setArrayLengthConverted h o value requested false true).1 o requested
        writable := rfl

lemma defineArrayLength_absent (h : Heap) (o : ℕ) (value : Value)
    (attributes : OseoPropertyAttributes) (absentWritable : Bool)
    (converted : Except Outcome (Fin (2 ^ 32))) :
    defineArrayLength h o value attributes false absentWritable converted =
      let writable := if absentWritable then (h.object o).lengthWritable else attributes.writable
      if attributes.configurable || attributes.enumerable ||
          (!(h.object o).lengthWritable && writable) then
        (h, .refused "Cannot redefine the array length property.")
      else (h.setObject o fun object => { object with lengthWritable := writable },
        .normal (.object o)) := rfl

lemma arrayState_writable {writable : Bool} (hwritable : object.lengthWritable = writable) :
    { arrayState object with lengthWritable := writable } = arrayState object := by
  rw [← hwritable]
  rfl

lemma settleLength_eq {changed : Heap} {writable : Bool}
    (hwritable : (changed.object o).lengthWritable = false → writable = false) :
    arrayState ((settleLength changed o requested writable).1.object o) =
        { arrayState (changed.object o) with lengthWritable := writable } ∧
      if (changed.object o).arrayLength = requested then
        (settleLength changed o requested writable).2 = .normal (.object o)
      else ∃ message, (settleLength changed o requested writable).2 = .refused message := by
  unfold settleLength
  by_cases hlength : (changed.object o).arrayLength = requested
  · rw [if_neg (not_not.mpr hlength), if_pos hlength, setObject_self]
    exact ⟨rfl, rfl⟩
  · rw [if_pos hlength, if_neg hlength]
    by_cases hchanged : (changed.object o).lengthWritable = true
    · rw [if_pos hchanged]
      refine ⟨?_, _, rfl⟩
      cases writable with
      | false =>
        rw [if_neg Bool.false_ne_true]
        rw [setObject_self]
        rfl
      | true => exact (arrayState_writable hchanged).symm
    · rw [if_neg hchanged]
      have hreadOnly := Bool.eq_false_iff.mpr hchanged
      rw [hwritable hreadOnly]
      exact ⟨(arrayState_writable hreadOnly).symm, _, rfl⟩

/-! ## Definitions -/

/-- The attributes a definition asserts are those the descriptor gives, and the ones the length has
after the conversion where it gives none. -/
structure AssertedBy (attributes : OseoPropertyAttributes) (descriptor : LengthDescriptor) :
    Prop where
  configurable : attributes.configurable = decide (descriptor.configurable = some true)
  enumerable : attributes.enumerable = decide (descriptor.enumerable = some true)
  writable : ∀ writable, descriptor.writable = some writable → attributes.writable = writable

variable {attributes : OseoPropertyAttributes} {descriptor : LengthDescriptor}

lemma AssertedBy.writable_eq (hasserted : AssertedBy attributes descriptor) (current : Bool) :
    (if descriptor.writable.isNone then current else attributes.writable) =
      descriptor.writable.getD current := by
  cases hfield : descriptor.writable with
  | none => rfl
  | some writable => exact hasserted.writable writable hfield

lemma AssertedBy.contradicts_iff (hasserted : AssertedBy attributes descriptor)
    (object : OseoOrdinaryObject) :
    (attributes.configurable || attributes.enumerable ||
        (!object.lengthWritable && descriptor.writable.getD object.lengthWritable)) = true ↔
      descriptor.Contradicts (arrayState object) := by
  rw [hasserted.configurable, hasserted.enumerable]
  show _ ↔ _ ∨ _ ∨ object.lengthWritable = false ∧ _
  cases object.lengthWritable with
  | true => simp
  | false => rcases descriptor.writable with _ | _ | _ <;> simp

/-- A read-only length stays read-only. -/
lemma LengthDescriptor.getD_readOnly {array : ArrayState}
    (hagrees : ¬descriptor.Contradicts array) (hreadOnly : array.lengthWritable = false) :
    descriptor.writable.getD array.lengthWritable = false := by
  rcases hfield : descriptor.writable with _ | _ | _
  · exact hreadOnly
  · rfl
  · exact absurd (.inr (.inr ⟨hreadOnly, hfield⟩)) hagrees

/-- A definition with a value leaves the array that ArraySetLength leaves, and reports what it
returns. -/
lemma defineArrayLength_eq (hstored : WellStored canonical (h.object o))
    (hkind : (h.object o).kind = .array) (value : Value)
    (hasserted : AssertedBy attributes descriptor) (requested : Fin (2 ^ 32)) :
    let prescribed := (arrayState (h.object o)).setLength requested descriptor
    let written := defineArrayLength h o value attributes true descriptor.writable.isNone
      (.ok requested)
    arrayState (written.1.object o) = prescribed.1 ∧
      if prescribed.2 then written.2 = .normal (.object o)
      else ∃ message, written.2 = .refused message := by
  obtain ⟨hchanged, -⟩ := setArrayLengthConverted_eq hstored hkind value requested false true
  rw [defineArrayLength_ok]
  rw [hasserted.writable_eq]
  by_cases hcontradicts : descriptor.Contradicts (arrayState (h.object o))
  · rw [if_pos ((hasserted.contradicts_iff _).mpr hcontradicts),
      ArrayState.setLength_contradicted hcontradicts]
    exact ⟨rfl, _, rfl⟩
  · rw [if_neg (fun hcode => hcontradicts ((hasserted.contradicts_iff _).mp hcode)),
      ArrayState.setLength_descriptor hcontradicts]
    have hlength := ArrayState.setLength_length (arrayState (h.object o)) requested
    have hflag := ArrayState.setLength_keeps (arrayState (h.object o)) requested
    rw [← hchanged] at hlength hflag ⊢
    obtain ⟨hstate, hreport⟩ := @settleLength_eq o requested
      (setArrayLengthConverted h o value requested false true).1
      (descriptor.writable.getD (h.object o).lengthWritable)
      fun hreadOnly => LengthDescriptor.getD_readOnly hcontradicts (hflag.symm.trans hreadOnly)
    refine ⟨hstate, ?_⟩
    rw [hlength]
    simp only [decide_eq_true_eq]
    exact hreport

/-- A definition without a value only asserts attributes. -/
lemma defineArrayLength_noValue (h : Heap) (o : ℕ) (value : Value)
    (hasserted : AssertedBy attributes descriptor) (converted : Except Outcome (Fin (2 ^ 32))) :
    let written := defineArrayLength h o value attributes false descriptor.writable.isNone
      converted
    match (arrayState (h.object o)).define none descriptor with
    | none => arrayState (written.1.object o) = arrayState (h.object o) ∧
        ∃ message, written.2 = .refused message
    | some array => arrayState (written.1.object o) = array ∧ written.2 = .normal (.object o) := by
  rw [defineArrayLength_absent]
  rw [hasserted.writable_eq]
  by_cases hcontradicts : descriptor.Contradicts (arrayState (h.object o))
  · rw [ArrayState.define_none hcontradicts,
      if_pos ((hasserted.contradicts_iff _).mpr hcontradicts)]
    exact ⟨rfl, _, rfl⟩
  · rw [if_neg (fun hcode => hcontradicts ((hasserted.contradicts_iff _).mp hcode))]
    have hdefine : (arrayState (h.object o)).define none descriptor =
        some { arrayState (h.object o) with
          lengthWritable := descriptor.writable.getD (h.object o).lengthWritable } := by
      simp only [LengthDescriptor.Contradicts, not_or, not_and] at hcontradicts
      obtain ⟨hconfigurable, henumerable, hwritable⟩ := hcontradicts
      unfold ArrayState.define
      rw [if_neg (by simp [hconfigurable, henumerable]), if_neg]
      · rfl
      · rw [any_none, Bool.or_false]
        simpa using hwritable
    rw [hdefine]
    dsimp only
    rw [setObject_self]
    exact ⟨rfl, rfl⟩

end Oseo.PropertyStorage
