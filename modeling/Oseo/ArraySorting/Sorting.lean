import Oseo.Library.Programs
import Oseo.Library.MergePasses
import Mathlib.Algebra.Order.Field.Rat

/-!
# Sorting arrays

`Array.prototype.sort` and `toSorted` of `runtime_array.c`: the elements of the receiver are
collected, merged bottom-up between two buffers, and published.

* user code and the operations of objects are an `Engine`: each of them has an effect on the state
  of the program and may end abruptly;
* values other than undefined are left open, since nothing here tells them apart;
* loops whose end depends on an answer have fuel, and are `none` without it.
-/

namespace Oseo.ArraySorting

/-- `OseoValue`. -/
inductive Value (Defined : Type)
  | undefined
  | defined (value : Defined)
deriving DecidableEq

def Value.isUndefined {Defined : Type} : Value Defined → Bool
  | .undefined => true
  | .defined _ => false

/-- A double; the two zeros are one number here. -/
inductive Number
  | nan
  | infinite (negative : Bool)
  | finite (value : ℚ)
deriving DecidableEq

namespace Number

def isPositive : Number → Bool
  | .nan => false
  | .infinite negative => !negative
  | .finite value => 0 < value

def isNegative : Number → Bool
  | .nan => false
  | .infinite negative => negative
  | .finite value => value < 0

def isZero : Number → Bool
  | .finite value => value = 0
  | _ => false

/-- NaN read as zero. -/
def orZero : Number → Number
  | .nan => .finite 0
  | number => number

end Number

/-- An effect on the state of the program, with a value or an abrupt completion. -/
abbrev Effect (World Abrupt α : Type) := World → Except Abrupt α × World

/-- User code and the operations of objects. A string is its code units, an index property its
index. -/
structure Engine (World Abrupt Defined : Type) where
  isCallable : Value Defined → Bool
  callFunction : Value Defined → List (Value Defined) → Effect World Abrupt (Value Defined)
  toNumber : Value Defined → Effect World Abrupt Number
  toString : Value Defined → Effect World Abrupt (List ℕ)
  toObject : Value Defined → Effect World Abrupt (Value Defined)
  arrayLikeLength : Value Defined → Effect World Abrupt ℕ
  typeError : String → Effect World Abrupt Empty
  rangeError : String → Effect World Abrupt Empty
  arrayCreate : ℕ → Effect World Abrupt (Value Defined)
  hasProperty : Value Defined → ℕ → Effect World Abrupt Bool
  objectGet : Value Defined → ℕ → Effect World Abrupt (Value Defined)
  objectSet : Value Defined → ℕ → Value Defined → Effect World Abrupt Unit
  objectDelete : Value Defined → ℕ → Effect World Abrupt Unit
  createIndexProperty : Value Defined → ℕ → Value Defined → Effect World Abrupt Unit

variable {World Abrupt Defined : Type}

/-! ## Comparing -/

/-- The order of two strings, by code units. -/
def stringOrder (left right : List ℕ) : Number :=
  if left < right then .finite (-1)
  else if right < left then .finite 1
  else .finite 0

/-- `compare_array_elements`. -/
def compareArrayElements (engine : Engine World Abrupt Defined) (comparator : Value Defined)
    (left right : Value Defined) : Effect World Abrupt Number := fun world =>
  match left, right with
  | .undefined, .undefined => (.ok (.finite 0), world)
  | .undefined, .defined _ => (.ok (.finite 1), world)
  | .defined _, .undefined => (.ok (.finite (-1)), world)
  | .defined left, .defined right =>
    match comparator with
    | .defined comparator =>
      match engine.callFunction (.defined comparator) [.defined left, .defined right] world with
      | (.error reason, world) => (.error reason, world)
      | (.ok result, world) =>
        match engine.toNumber result world with
        | (.error reason, world) => (.error reason, world)
        | (.ok number, world) => (.ok number.orZero, world)
    | .undefined =>
      match engine.toString (.defined left) world with
      | (.error reason, world) => (.error reason, world)
      | (.ok leftString, world) =>
        match engine.toString (.defined right) world with
        | (.error reason, world) => (.error reason, world)
        | (.ok rightString, world) => (.ok (stringOrder leftString rightString), world)

/-! ## Merging -/

/-- A slot of a buffer. -/
def slot (slots : List (Value Defined)) (index : ℕ) : Value Defined :=
  slots[index]?.getD .undefined

/-- Where a merge of two runs is: the next element of either, the next slot to write, and the
buffer it writes. -/
structure Cursor (Defined : Type) where
  left : ℕ
  right : ℕ
  output : ℕ
  target : List (Value Defined)

def Cursor.takeLeft (cursor : Cursor Defined) (source : List (Value Defined)) :
    Cursor Defined where
  left := cursor.left + 1
  right := cursor.right
  output := cursor.output + 1
  target := cursor.target.set cursor.output (slot source cursor.left)

def Cursor.takeRight (cursor : Cursor Defined) (source : List (Value Defined)) :
    Cursor Defined where
  left := cursor.left
  right := cursor.right + 1
  output := cursor.output + 1
  target := cursor.target.set cursor.output (slot source cursor.right)

section Buffers

variable (compare : Value Defined → Value Defined → Effect World Abrupt Number)
  (source : List (Value Defined))

/-- The comparing loop of a merge. -/
def mergeLoop (middle finish : ℕ) : (fuel : ℕ) → Cursor Defined → World →
    Option (Except Abrupt Unit × Cursor Defined × World)
  | 0, _, _ => none
  | fuel + 1, cursor, world =>
    if cursor.left < middle ∧ cursor.right < finish then
      match compare (slot source cursor.left) (slot source cursor.right) world with
      | (.error reason, world) => some (.error reason, cursor, world)
      | (.ok order, world) =>
        mergeLoop middle finish fuel
          (if order.isPositive then cursor.takeRight source else cursor.takeLeft source) world
    else some (.ok (), cursor, world)

/-- The loop that copies what is left of the first run. -/
def copyLeft : (count : ℕ) → Cursor Defined → Cursor Defined
  | 0, cursor => cursor
  | count + 1, cursor => copyLeft count (cursor.takeLeft source)

/-- The loop that copies what is left of the second run. -/
def copyRight : (count : ℕ) → Cursor Defined → Cursor Defined
  | 0, cursor => cursor
  | count + 1, cursor => copyRight count (cursor.takeRight source)

/-- What is left of both runs. -/
def copyRest (middle finish : ℕ) (cursor : Cursor Defined) : Cursor Defined :=
  let cursor := copyLeft source (middle - cursor.left) cursor
  copyRight source (finish - cursor.right) cursor

/-- The merge of the two runs from `start` on. -/
def mergeRuns (count width start : ℕ) (target : List (Value Defined)) (world : World) :
    Option (Except Abrupt Unit × List (Value Defined) × World) :=
  let middle := if count - start < width then count else start + width
  let finish := if count - start < 2 * width then count else start + 2 * width
  match mergeLoop compare source middle finish (finish - start + 1) ⟨start, middle, start, target⟩
    world with
  | none => none
  | some (.error reason, cursor, world) => some (.error reason, cursor.target, world)
  | some (.ok _, cursor, world) =>
    some (.ok (), (copyRest source middle finish cursor).target, world)

/-- One pass over the runs of a width. -/
def passLoop (count width : ℕ) : (fuel start : ℕ) → (target : List (Value Defined)) → World →
    Option (Except Abrupt Unit × List (Value Defined) × World)
  | 0, _, _, _ => none
  | fuel + 1, start, target, world =>
    if start < count then
      match mergeRuns compare source count width start target world with
      | none => none
      | some (.error reason, target, world) => some (.error reason, target, world)
      | some (.ok _, target, world) => passLoop count width fuel (start + 2 * width) target world
    else some (.ok (), target, world)

end Buffers

/-- The two buffers of a sort, and whether the source is the scratch. -/
structure Buffers (Defined : Type) where
  source : List (Value Defined)
  target : List (Value Defined)
  swapped : Bool

/-- The slots of the list. -/
def Buffers.listSlots (buffers : Buffers Defined) : List (Value Defined) :=
  if buffers.swapped then buffers.target else buffers.source

/-- The loop over the widths. -/
def widthLoop (compare : Value Defined → Value Defined → Effect World Abrupt Number)
    (count : ℕ) : (fuel width : ℕ) → Buffers Defined → World →
    Option (Except Abrupt Unit × Buffers Defined × World)
  | 0, _, _, _ => none
  | fuel + 1, width, buffers, world =>
    if width < count then
      match passLoop compare buffers.source count width (count + 1) 0 buffers.target world with
      | none => none
      | some (.error reason, target, world) => some (.error reason, { buffers with target }, world)
      | some (.ok _, target, world) =>
        widthLoop compare count fuel (width * 2)
          { source := target, target := buffers.source, swapped := !buffers.swapped } world
    else some (.ok (), buffers, world)

/-- The loop that copies one buffer to the other. -/
def copySlots (count : ℕ) (source target : List (Value Defined)) : List (Value Defined) :=
  (List.range count).foldl (fun target index => target.set index (slot source index)) target

/-- `array_merge_sort`. -/
def arrayMergeSort (engine : Engine World Abrupt Defined) (list : List (Value Defined))
    (comparator : Value Defined) (world : World) :
    Option (Except Abrupt Unit × List (Value Defined) × World) :=
  let count := list.length
  if count < 2 then some (.ok (), list, world)
  else
    match widthLoop (compareArrayElements engine comparator) count count 1
      { source := list, target := List.replicate count .undefined, swapped := false } world with
    | none => none
    | some (.error reason, buffers, world) => some (.error reason, buffers.listSlots, world)
    | some (.ok _, buffers, world) =>
      some (.ok (), if buffers.swapped then copySlots count buffers.source buffers.listSlots
        else buffers.listSlots, world)

/-! ## The sort methods -/

section Methods

variable (engine : Engine World Abrupt Defined) (object : Value Defined)

/-- The collecting loop of `sort_indexed_properties`, with the indices that are left. -/
def collectLoop (readThroughHoles : Bool) : (left index : ℕ) → (list : List (Value Defined)) →
    Effect World Abrupt (List (Value Defined))
  | 0, _, list => fun world => (.ok list, world)
  | left + 1, index, list => fun world =>
    let present := if readThroughHoles then (.ok true, world)
      else engine.hasProperty object index world
    match present with
    | (.error reason, world) => (.error reason, world)
    | (.ok false, world) => collectLoop readThroughHoles left (index + 1) list world
    | (.ok true, world) =>
      match engine.objectGet object index world with
      | (.error reason, world) => (.error reason, world)
      | (.ok value, world) => collectLoop readThroughHoles left (index + 1) (list ++ [value]) world

/-- `sort_indexed_properties`, with the list it leaves. -/
def sortIndexedProperties (length : ℕ) (comparator : Value Defined) (readThroughHoles : Bool)
    (world : World) : Option (Except Abrupt (List (Value Defined)) × World) :=
  match collectLoop engine object readThroughHoles length 0 [] world with
  | (.error reason, world) => some (.error reason, world)
  | (.ok list, world) =>
    match arrayMergeSort engine list comparator world with
    | none => none
    | some (.error reason, _, world) => some (.error reason, world)
    | some (.ok _, list, world) => some (.ok list, world)

/-- The loop that publishes the sorted elements. -/
def publishLoop (publish : ℕ → Value Defined → Effect World Abrupt Unit) :
    (index : ℕ) → (list : List (Value Defined)) → Effect World Abrupt Unit
  | _, [] => fun world => (.ok (), world)
  | index, value :: list => fun world =>
    match publish index value world with
    | (.error reason, world) => (.error reason, world)
    | (.ok _, world) => publishLoop publish (index + 1) list world

/-- The loop that deletes the indices behind the sorted elements. -/
def deleteLoop : (left index : ℕ) → Effect World Abrupt Unit
  | 0, _ => fun world => (.ok (), world)
  | left + 1, index => fun world =>
    match engine.objectDelete object index world with
    | (.error reason, world) => (.error reason, world)
    | (.ok _, world) => deleteLoop left (index + 1) world

end Methods

/-- An error as the completion of a method. -/
def thrown {α : Type} (effect : Effect World Abrupt Empty) : Effect World Abrupt α := fun world =>
  match effect world with
  | (.error reason, world) => (.error reason, world)

/-- `array_sorting`: `toSorted` for a copy, else `sort`. -/
def arraySorting (engine : Engine World Abrupt Defined) (receiver : Value Defined)
    (arguments : List (Value Defined)) (copy : Bool) (world : World) :
    Option (Except Abrupt (Value Defined) × World) :=
  let comparator := arguments.head?.getD .undefined
  if !comparator.isUndefined && !engine.isCallable comparator then
    some (thrown (engine.typeError (if copy then
      "Array.prototype.toSorted comparator is not callable."
      else "Array.prototype.sort comparator is not callable.")) world)
  else
    match engine.toObject receiver world with
    | (.error reason, world) => some (.error reason, world)
    | (.ok object, world) =>
      match engine.arrayLikeLength object world with
      | (.error reason, world) => some (.error reason, world)
      | (.ok length, world) =>
        let created := if copy then
            if 0xffffffff < length then thrown (engine.rangeError "Invalid array length.") world
            else engine.arrayCreate length world
          else (.ok .undefined, world)
        match created with
        | (.error reason, world) => some (.error reason, world)
        | (.ok target, world) =>
          match sortIndexedProperties engine object length comparator copy world with
          | none => none
          | some (.error reason, world) => some (.error reason, world)
          | some (.ok list, world) =>
            let publish := if copy then engine.createIndexProperty target
              else engine.objectSet object
            match publishLoop publish 0 list world with
            | (.error reason, world) => some (.error reason, world)
            | (.ok _, world) =>
              match deleteLoop engine object (if copy then 0 else length - list.length) list.length
                world with
              | (.error reason, world) => some (.error reason, world)
              | (.ok _, world) => some (.ok (if copy then target else object), world)

/-! ## The merge sort of arrays

The loops of `array_merge_sort` end for every comparator; they compare elements of the list only,
and make no comparison after an abrupt one. Where none is abrupt, they go through the passes of
`Library.Sorts`, with the answers that the comparator gave.
-/

open Nat
open List
open Oseo.Library

variable {compare : Value Defined → Value Defined → Effect World Abrupt Number}
  {source target list : List (Value Defined)} {world world' : World}
  {outcome : Except Abrupt Unit} {middle finish fuel count width start : ℕ}
  {cursor cursor' : Cursor Defined}

/-! ## What is compared -/

/-- Two elements of a list. -/
abbrev Pair (Defined : Type) := Value Defined × Value Defined

/-- Comparisons made one after the other, of elements of a list. -/
def Compares (compare : Value Defined → Value Defined → Effect World Abrupt Number)
    (list : List (Value Defined)) (world : World) (outcome : Except Abrupt Unit)
    (world' : World) : Prop :=
  ∃ pairs : List (Pair Defined), (∀ pair ∈ pairs, pair.1 ∈ list ∧ pair.2 ∈ list) ∧
    Performs (fun pair => compare pair.1 pair.2) world pairs outcome world'

/-- An answer a comparator gave for two elements of a list: whether the second one goes first. -/
def Answers (compare : Value Defined → Value Defined → Effect World Abrupt Number)
    (list : List (Value Defined)) (left right : Value Defined) (second : Bool) : Prop :=
  left ∈ list ∧ right ∈ list ∧ ∃ world order world', compare left right world = (.ok order, world') ∧
    order.isPositive = second

lemma Compares.nil : Compares compare list world (.ok ()) world :=
  ⟨[], fun _ hpair => (by cases hpair), .nil world⟩

lemma Compares.append {world'' : World} (h : Compares compare list world (.ok ()) world')
    (h' : Compares compare list world' outcome world'') :
    Compares compare list world outcome world'' := by
  obtain ⟨pairs, hpairs, hperforms⟩ := h
  obtain ⟨pairs', hpairs', hperforms'⟩ := h'
  refine ⟨pairs ++ pairs', fun pair hpair => ?_, hperforms.append hperforms'⟩
  rcases mem_append.mp hpair with hpair | hpair
  · exact hpairs pair hpair
  · exact hpairs' pair hpair

/-! ## Buffers -/

/-- The slots from one index up to another. -/
def segment (slots : List (Value Defined)) (first last : ℕ) : List (Value Defined) :=
  (slots.take last).drop first

lemma segment_empty {first last : ℕ} (h : last ≤ first) : segment source first last = [] := by
  unfold segment
  rw [drop_eq_nil_iff, length_take]
  omega

lemma segment_cons {first last : ℕ} (hfirst : first < last) (hlast : last ≤ source.length) :
    segment source first last = slot source first :: segment source (first + 1) last := by
  unfold segment slot
  have hlength : first < (source.take last).length := by
    rw [length_take]
    omega
  rw [drop_eq_getElem_cons hlength, getElem_take, getElem?_eq_getElem (by omega)]
  rfl

lemma slot_mem {index : ℕ} (h : index < source.length) : slot source index ∈ source := by
  unfold slot
  rw [getElem?_eq_getElem h]
  exact getElem_mem h

/-- A buffer with some slots from an index on written. -/
def written (slots : List (Value Defined)) (output : ℕ) (values : List (Value Defined)) :
    List (Value Defined) :=
  slots.take output ++ values ++ slots.drop (output + values.length)

lemma written_nil (slots : List (Value Defined)) (output : ℕ) : written slots output [] = slots := by
  unfold written
  rw [append_nil, length_nil, add_zero, take_append_drop]

/-- One slot is written, then those behind it. -/
lemma written_cons {slots : List (Value Defined)} {output : ℕ} (houtput : output < slots.length)
    (value : Value Defined) (values : List (Value Defined)) :
    written (slots.set output value) (output + 1) values =
      written slots output (value :: values) := by
  unfold written
  have htake : (slots.set output value).take (output + 1) = slots.take output ++ [value] := by
    rw [set_eq_take_append_cons_drop, if_pos houtput, take_append, length_take,
      Nat.min_eq_left (Nat.le_of_lt houtput), Nat.add_sub_cancel_left, take_take]
    simp
  rw [htake, drop_set_of_lt (by omega), length_cons, append_assoc,
    append_assoc, append_assoc, add_assoc, add_comm 1]
  rfl

lemma written_length {slots : List (Value Defined)} {output : ℕ} {values : List (Value Defined)}
    (h : output + values.length ≤ slots.length) :
    (written slots output values).length = slots.length := by
  unfold written
  rw [length_append, length_append, length_take, length_drop]
  omega

/-- The slots behind the ones that were written. -/
lemma written_append {slots : List (Value Defined)} {output : ℕ}
    {values others : List (Value Defined)} (h : output + values.length ≤ slots.length) :
    written (written slots output values) (output + values.length) others =
      written slots output (values ++ others) := by
  have hlength : (slots.take output ++ values).length = output + values.length := by
    rw [length_append, length_take, min_eq_left (by omega)]
  have htake : (written slots output values).take (output + values.length) =
      slots.take output ++ values := take_left' hlength
  have hdrop : (written slots output values).drop (output + values.length + others.length) =
      slots.drop (output + (values ++ others).length) := by
    unfold written
    rw [← drop_drop, drop_left' hlength, drop_drop, length_append,
      add_assoc]
  show (written slots output values).take _ ++ others ++ _ = _
  rw [htake, hdrop]
  unfold written
  rw [append_assoc (slots.take output)]

/-! ## One merge -/

/-- A merge is within its two runs, and has written as many slots as it took elements. -/
structure Cursor.Within (cursor : Cursor Defined) (source : List (Value Defined))
    (middle finish : ℕ) : Prop where
  left_le : cursor.left ≤ middle
  le_right : middle ≤ cursor.right
  right_le : cursor.right ≤ finish
  finish_le : finish ≤ source.length
  output_eq : cursor.output + middle = cursor.left + cursor.right
  target_length : cursor.target.length = source.length

namespace Cursor.Within

lemma takeLeft (h : cursor.Within source middle finish) (hleft : cursor.left < middle) :
    (cursor.takeLeft source).Within source middle finish where
  left_le := hleft
  le_right := h.le_right
  right_le := h.right_le
  finish_le := h.finish_le
  output_eq := by
    have := h.output_eq
    show cursor.output + 1 + middle = cursor.left + 1 + cursor.right
    omega
  target_length := by
    show (cursor.target.set _ _).length = _
    rw [length_set, h.target_length]

lemma takeRight (h : cursor.Within source middle finish) (hright : cursor.right < finish) :
    (cursor.takeRight source).Within source middle finish where
  left_le := h.left_le
  le_right := le_succ_of_le h.le_right
  right_le := hright
  finish_le := h.finish_le
  output_eq := by
    have := h.output_eq
    show cursor.output + 1 + middle = cursor.left + (cursor.right + 1)
    omega
  target_length := by
    show (cursor.target.set _ _).length = _
    rw [length_set, h.target_length]

end Cursor.Within

/-- What is left of the first run is written in order. -/
lemma copyLeft_written {left : ℕ} (hleft : cursor.left + left ≤ source.length)
    (houtput : cursor.output + left ≤ cursor.target.length) :
    copyLeft source left cursor = {
      left := cursor.left + left
      right := cursor.right
      output := cursor.output + left
      target := written cursor.target cursor.output
        (segment source cursor.left (cursor.left + left)) } := by
  induction left generalizing cursor with
  | zero =>
    rw [add_zero, add_zero, segment_empty (le_refl _), written_nil]
    rfl
  | succ left ih =>
    have hlength : (cursor.takeLeft source).target.length = cursor.target.length :=
      length_set
    rw [copyLeft, ih (by show cursor.left + 1 + left ≤ _; omega)
      (by rw [hlength]; show cursor.output + 1 + left ≤ _; omega),
      segment_cons (show cursor.left < cursor.left + (left + 1) by omega) hleft]
    have hnext : cursor.left + 1 + left = cursor.left + (left + 1) := by omega
    have hslots : cursor.output + 1 + left = cursor.output + (left + 1) := by omega
    show Cursor.mk (cursor.left + 1 + left) cursor.right (cursor.output + 1 + left)
      (written (cursor.target.set cursor.output (slot source cursor.left)) (cursor.output + 1)
        (segment source (cursor.left + 1) (cursor.left + 1 + left))) = _
    rw [hnext, hslots, written_cons (by omega)]

/-- What is left of the second run is written in order. -/
lemma copyRight_written {left : ℕ} (hright : cursor.right + left ≤ source.length)
    (houtput : cursor.output + left ≤ cursor.target.length) :
    (copyRight source left cursor).target = written cursor.target cursor.output
      (segment source cursor.right (cursor.right + left)) := by
  induction left generalizing cursor with
  | zero =>
    rw [add_zero, segment_empty (le_refl _), written_nil]
    rfl
  | succ left ih =>
    have hlength : (cursor.takeRight source).target.length = cursor.target.length :=
      length_set
    rw [copyRight, ih (by show cursor.right + 1 + left ≤ _; omega)
      (by rw [hlength]; show cursor.output + 1 + left ≤ _; omega),
      segment_cons (show cursor.right < cursor.right + (left + 1) by omega) hright]
    have hnext : cursor.right + 1 + left = cursor.right + (left + 1) := by omega
    show written (cursor.target.set cursor.output (slot source cursor.right)) (cursor.output + 1)
      (segment source (cursor.right + 1) (cursor.right + 1 + left)) = _
    rw [hnext, written_cons (by omega)]

lemma segment_length {first last : ℕ} (hlast : last ≤ source.length) :
    (segment source first last).length = last - first := by
  unfold segment
  rw [length_drop, length_take]
  omega

/-- The end of a merge writes what is left of both runs. -/
lemma copyRest_written (h : cursor.Within source middle finish) :
    (copyRest source middle finish cursor).target = written cursor.target cursor.output
      (segment source cursor.left middle ++ segment source cursor.right finish) := by
  have hleft := h.left_le
  have hright := h.right_le
  have hfinish := h.finish_le
  have houtput := h.output_eq
  have hmiddle := h.le_right
  have htarget := h.target_length
  have hrun : cursor.left + (middle - cursor.left) = middle := by omega
  have hother : cursor.right + (finish - cursor.right) = finish := by omega
  have hlength : (segment source cursor.left middle).length = middle - cursor.left :=
    segment_length (by omega)
  unfold copyRest
  rw [copyLeft_written (by omega) (by omega), hrun, copyRight_written]
  · dsimp only
    rw [hother, ← hlength, written_append (by omega)]
  · dsimp only
    omega
  · dsimp only
    rw [written_length (by omega)]
    omega

variable (compare world) in
/-- The comparing loop and the copies behind it merge what is left of both runs. -/
lemma mergeLoop_merges (hsource : ∀ value ∈ source, value ∈ list)
    (h : cursor.Within source middle finish)
    (hfuel : (middle - cursor.left) + (finish - cursor.right) < fuel) :
    ∃ outcome cursor' world', mergeLoop compare source middle finish fuel cursor world =
        some (outcome, cursor', world') ∧ Compares compare list world outcome world' ∧
      cursor'.target.length = source.length ∧
      (outcome = .ok () → ∃ out, Merges (Answers compare list) (segment source cursor.left middle)
        (segment source cursor.right finish) out ∧
        (copyRest source middle finish cursor').target =
          written cursor.target cursor.output out) := by
  induction fuel generalizing cursor world with
  | zero => omega
  | succ fuel ih =>
    have hmiddle := h.le_right
    have hfinish := h.finish_le
    have houtput := h.output_eq
    have htarget := h.target_length
    rw [mergeLoop]
    split
    · next hmore =>
      have hfirst : slot source cursor.left ∈ list := hsource _ (slot_mem (by omega))
      have hsecond : slot source cursor.right ∈ list := hsource _ (slot_mem (by omega))
      have hpair : ∀ pair ∈ [(slot source cursor.left, slot source cursor.right)],
          pair.1 ∈ list ∧ pair.2 ∈ list := by
        intro pair hpair
        rw [mem_singleton.mp hpair]
        exact ⟨hfirst, hsecond⟩
      split
      · next reason world' hcompare =>
        exact ⟨.error reason, cursor, world', rfl, ⟨_, hpair, .abrupt hcompare⟩, htarget, nofun⟩
      · next order world' hcompare =>
        have hone : Compares compare list world (.ok ()) world' :=
          ⟨_, hpair, .single hcompare⟩
        cases hpositive : order.isPositive with
        | true =>
          obtain ⟨outcome, cursor', world'', hloop, hcompares, hlength, hmerges⟩ :=
            ih world' (h.takeRight hmore.2) (by
              show middle - cursor.left + (finish - (cursor.right + 1)) < fuel
              omega)
          refine ⟨outcome, cursor', world'', hloop, hone.append hcompares, hlength,
            fun hok => ?_⟩
          obtain ⟨out, hout, hwritten⟩ := hmerges hok
          refine ⟨slot source cursor.right :: out, ?_, ?_⟩
          · rw [segment_cons hmore.1 (by omega), segment_cons hmore.2 (by omega)]
            apply Merges.takeRight ⟨hfirst, hsecond, world, order, world', hcompare, hpositive⟩
            rw [← segment_cons hmore.1 (by omega)]
            exact hout
          · rw [hwritten]
            exact written_cons (by omega) _ _
        | false =>
          obtain ⟨outcome, cursor', world'', hloop, hcompares, hlength, hmerges⟩ :=
            ih world' (h.takeLeft hmore.1) (by
              show middle - (cursor.left + 1) + (finish - cursor.right) < fuel
              omega)
          refine ⟨outcome, cursor', world'', hloop, hone.append hcompares, hlength,
            fun hok => ?_⟩
          obtain ⟨out, hout, hwritten⟩ := hmerges hok
          refine ⟨slot source cursor.left :: out, ?_, ?_⟩
          · rw [segment_cons hmore.1 (by omega), segment_cons hmore.2 (by omega)]
            apply Merges.takeLeft ⟨hfirst, hsecond, world, order, world', hcompare, hpositive⟩
            rw [← segment_cons hmore.2 (by omega)]
            exact hout
          · rw [hwritten]
            exact written_cons (by omega) _ _
    · next hdone =>
      refine ⟨.ok (), cursor, world, rfl, .nil, htarget, fun _ => ⟨_, ?_, copyRest_written h⟩⟩
      by_cases hnone : middle ≤ cursor.left
      · rw [segment_empty hnone]
        exact .leftDone _
      · rw [segment_empty (show finish ≤ cursor.right by omega), append_nil]
        exact .rightDone _

/-! ## Passes -/

lemma segment_drop (first width : ℕ) :
    segment source first (min source.length (first + width)) =
      (source.drop first).take width := by
  unfold segment
  rw [drop_take, take_eq_take_iff, length_drop]
  omega

/-- The two runs that are merged. -/
lemma segment_second :
    segment source (min source.length (start + width)) (min source.length (start + 2 * width)) =
      ((source.drop start).drop width).take width := by
  rw [drop_drop]
  rcases le_total (start + width) source.length with hle | hge
  · rw [min_eq_right hle, ← segment_drop, two_mul, add_assoc]
  · rw [segment_empty (by omega), drop_of_length_le hge, take_nil]

variable (compare world width) in
/-- The runs of one place in a pass are merged. -/
lemma mergeRuns_merges (hsource : ∀ value ∈ source, value ∈ list) (hstart : start < source.length)
    (htarget : target.length = source.length) :
    ∃ outcome target' world', mergeRuns compare source source.length width start target world =
        some (outcome, target', world') ∧ Compares compare list world outcome world' ∧
      target'.length = source.length ∧
      (outcome = .ok () → ∃ out, Merges (Answers compare list) ((source.drop start).take width)
        (((source.drop start).drop width).take width) out ∧ target' = written target start out) := by
  have hmiddle : (if source.length - start < width then source.length else start + width) =
      min source.length (start + width) := by
    split
    · omega
    · omega
  have hfinish : (if source.length - start < 2 * width then source.length
      else start + 2 * width) = min source.length (start + 2 * width) := by
    split
    · omega
    · omega
  unfold mergeRuns
  dsimp only
  rw [hmiddle, hfinish]
  have hwithin : (Cursor.mk start (min source.length (start + width)) start target).Within source
      (min source.length (start + width)) (min source.length (start + 2 * width)) := {
    left_le := by
      show start ≤ _
      omega
    le_right := le_refl _
    right_le := by
      show min source.length (start + width) ≤ _
      omega
    finish_le := min_le_left _ _
    output_eq := rfl
    target_length := htarget }
  obtain ⟨outcome, cursor', world', hloop, hcompares, hlength, hmerges⟩ :=
    mergeLoop_merges compare world hsource hwithin
      (show min source.length (start + width) - start +
        (min source.length (start + 2 * width) - min source.length (start + width)) <
        min source.length (start + 2 * width) - start + 1 by omega)
  rw [hloop]
  cases outcome with
  | error reason => exact ⟨.error reason, cursor'.target, world', rfl, hcompares, hlength, nofun⟩
  | ok =>
    obtain ⟨out, hout, hwritten⟩ := hmerges rfl
    have hruns : Merges (Answers compare list) ((source.drop start).take width)
        (((source.drop start).drop width).take width) out := by
      rw [← segment_drop, ← segment_second]
      exact hout
    refine ⟨.ok (), _, world', rfl, hcompares, ?_, fun _ => ⟨out, hruns, hwritten⟩⟩
    rw [hwritten, written_length, htarget]
    show start + out.length ≤ target.length
    rw [hruns.length]
    simp only [length_take, length_drop]
    omega

variable (compare world fuel start) in
/-- A pass goes over all runs from a place on. -/
lemma passLoop_passes (hsource : ∀ value ∈ source, value ∈ list) (hwidth : 0 < width)
    (htarget : target.length = source.length) (hfuel : source.length - start < fuel) :
    ∃ outcome target' world', passLoop compare source source.length width fuel start target world =
        some (outcome, target', world') ∧ Compares compare list world outcome world' ∧
      target'.length = source.length ∧
      (outcome = .ok () → ∃ outs, Pass (Answers compare list) width (source.drop start) outs ∧
        target' = written target start outs) := by
  induction fuel generalizing start target world with
  | zero => omega
  | succ fuel ih =>
    rw [passLoop]
    split
    · next hstart =>
      obtain ⟨outcome, target₁, world₁, hruns, hcompares, hlength, hmerges⟩ :=
        mergeRuns_merges compare world width hsource hstart htarget
      rw [hruns]
      cases outcome with
      | error reason => exact ⟨.error reason, target₁, world₁, rfl, hcompares, hlength, nofun⟩
      | ok =>
        obtain ⟨outcome, target₂, world₂, hloop, hcompares', hlength', hpass⟩ :=
          @ih target₁ world₁ (start + 2 * width) hlength (by omega)
        refine ⟨outcome, target₂, world₂, hloop, hcompares.append hcompares', hlength',
          fun hok => ?_⟩
        obtain ⟨out, hout, hwritten⟩ := hmerges rfl
        obtain ⟨outs, houts, hwritten'⟩ := hpass hok
        have hsome : source.drop start ≠ [] := by
          intro hnil
          rw [drop_eq_nil_iff] at hnil
          omega
        refine ⟨out ++ outs, .cons hsome hout ?_, ?_⟩
        · rw [drop_drop]
          exact houts
        · have hlengths : out.length = min (2 * width) (source.length - start) := by
            rw [hout.length]
            simp only [length_take, length_drop]
            omega
          rcases lt_or_ge (source.length - start) (2 * width) with hlt | hge
          · -- Nothing is behind the last runs.
            have hnil : outs = [] := by
              rw [← length_eq_zero_iff, houts.perm.length_eq, length_drop]
              omega
            rw [hwritten', hwritten, hnil, written_nil, append_nil]
          · have hfull : 2 * width = out.length := by omega
            rw [hwritten', hwritten, hfull, written_append (by omega)]
    · next hend =>
      refine ⟨.ok (), target, world, rfl, .nil, htarget, fun _ => ⟨[], ?_, ?_⟩⟩
      · rw [drop_of_length_le (by omega)]
        exact .nil
      · rw [written_nil]

/-- What the loop over the widths leaves: it compared elements of the list, and its source is
sorted if no comparison was abrupt. -/
lemma widthLoop_sorts {buffers : Buffers Defined} (hsource : ∀ value ∈ buffers.source, value ∈ list)
    (hwidth : 0 < width) (htarget : buffers.target.length = buffers.source.length)
    (hcount : buffers.source.length = count) (hfuel : count < width + fuel) (hrounds : 0 < fuel) :
    ∃ outcome buffers' world', widthLoop compare count fuel width buffers world =
        some (outcome, buffers', world') ∧ Compares compare list world outcome world' ∧
      buffers'.source.length = count ∧ buffers'.target.length = count ∧
      (outcome = .ok () → Sorts (Answers compare list) width buffers.source buffers'.source) := by
  induction fuel generalizing width buffers world with
  | zero => omega
  | succ fuel ih =>
    rw [widthLoop]
    split
    · next hmore =>
      obtain ⟨outcome, target, world₁, hloop, hcompares, hlength, hpass⟩ :=
        passLoop_passes compare world (count + 1) 0 hsource hwidth htarget (by omega)
      rw [hcount] at hloop
      rw [hloop]
      cases outcome with
      | error reason =>
        exact ⟨.error reason, { buffers with target }, world₁, rfl, hcompares, hcount,
          hlength.trans hcount, nofun⟩
      | ok =>
        obtain ⟨outs, houts, hwritten⟩ := hpass rfl
        rw [drop_zero] at houts
        -- A pass from the first slot on writes the whole buffer.
        have hwhole : target = outs := by
          rw [hwritten]
          unfold written
          rw [take_zero, nil_append, zero_add, drop_of_length_le, append_nil]
          rw [houts.perm.length_eq, htarget]
        have hnext : ∀ value ∈ target, value ∈ list := by
          intro value hvalue
          rw [hwhole] at hvalue
          exact hsource value (houts.perm.mem_iff.mp hvalue)
        obtain ⟨outcome, buffers', world₂, hwidths, hcompares', hlengths, hlengths', hsorts⟩ :=
          @ih world₁ (width * 2) ⟨target, buffers.source, !buffers.swapped⟩ hnext (by omega)
            hlength.symm (hlength.trans hcount) (by omega) (by omega)
        refine ⟨outcome, buffers', world₂, hwidths, hcompares.append hcompares', hlengths,
          hlengths', fun hok => ?_⟩
        apply Sorts.step (by omega) houts
        rw [← hwhole]
        exact hsorts hok
    · next hdone =>
      refine ⟨.ok (), buffers, world, rfl, .nil, hcount, by omega, fun _ => ?_⟩
      exact .done (by omega)

/-! ## The sort -/

lemma copySlots_eq (hsource : source.length = count) (htarget : target.length = count) :
    copySlots count source target = source := by
  have hcopied : ∀ copied ≤ count, (range copied).foldl
      (fun target index => target.set index (slot source index)) target =
        source.take copied ++ target.drop copied := by
    intro copied
    induction copied with
    | zero => exact fun _ => rfl
    | succ copied ih =>
      intro hle
      have htake : source.take (copied + 1) = source.take copied ++ [slot source copied] := by
        unfold slot
        rw [take_add_one, getElem?_eq_getElem (by omega)]
        rfl
      have hlength : (source.take copied).length = copied := by
        rw [length_take]
        omega
      rw [range_succ, foldl_append, ih (by omega), htake, foldl_cons,
        foldl_nil, set_append_right copied _ (by omega), hlength, Nat.sub_self,
        append_assoc, drop_eq_getElem_cons (show copied < target.length by omega)]
      rfl
  unfold copySlots
  rw [hcopied count (le_refl _), take_of_length_le (by omega),
    drop_of_length_le (by omega), append_nil]

/-- The sort ends, and without an abrupt comparison it went through the passes of a list. -/
lemma arrayMergeSort_sorts (engine : Engine World Abrupt Defined) (list : List (Value Defined))
    (comparator : Value Defined) (world : World) :
    ∃ outcome sorted world', arrayMergeSort engine list comparator world =
        some (outcome, sorted, world') ∧
      Compares (compareArrayElements engine comparator) list world outcome world' ∧
      (outcome = .ok () →
        Sorts (Answers (compareArrayElements engine comparator) list) 1 list sorted) := by
  unfold arrayMergeSort
  dsimp only
  split
  · next hfew =>
    exact ⟨.ok (), list, world, rfl, .nil, fun _ => .done (by omega)⟩
  · next hmany =>
    obtain ⟨outcome, buffers, world', hloop, hcompares, hsource, htarget, hsorts⟩ :=
      @widthLoop_sorts World Abrupt Defined (compareArrayElements engine comparator) list world
        list.length list.length 1 ⟨list, replicate list.length .undefined, false⟩
        (fun value hvalue => hvalue) one_pos length_replicate rfl (by omega) (by omega)
    rw [hloop]
    cases outcome with
    | error reason => exact ⟨.error reason, buffers.listSlots, world', rfl, hcompares, nofun⟩
    | ok =>
      refine ⟨.ok (), buffers.source, world', ?_, hcompares, fun _ => hsorts rfl⟩
      -- The list holds the sorted elements, copied from the scratch if they are there.
      dsimp only
      unfold Buffers.listSlots
      split
      · rw [copySlots_eq hsource htarget]
      · rfl

end Oseo.ArraySorting
