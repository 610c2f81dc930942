import Oseo.ArraySorting.Sorting

/-!
# What the sort methods leave

The sorted list has the elements it had before, with the undefined ones last. For a consistent
comparison function it is in order and stable. A comparison that is abrupt is the last thing a sort
does: `sort` writes its receiver only after all of them.
-/

namespace Oseo.ArraySorting

open List
open Oseo.Library

variable {World Abrupt Defined : Type} {engine : Engine World Abrupt Defined}
  {comparator a b c : Value Defined} {list sorted : List (Value Defined)} {world world' : World}
  {order : Number} {value : Value Defined → Value Defined → Number}

/-! ## Answers of comparisons -/

lemma orZero_ne_nan (number : Number) : number.orZero ≠ .nan := by
  cases number with
  | nan => nofun
  | infinite negative => nofun
  | finite value => nofun

/-- A comparison never answers NaN. -/
lemma compareArrayElements_ne_nan
    (h : compareArrayElements engine comparator a b world = (.ok order, world')) :
    order ≠ .nan := by
  unfold compareArrayElements at h
  split at h
  · cases h
    nofun
  · cases h
    nofun
  · cases h
    nofun
  · split at h
    · split at h
      · cases h
      · split at h
        · cases h
        · cases h
          exact orZero_ne_nan _
    · split at h
      · cases h
      · split at h
        · cases h
        · cases h
          unfold stringOrder
          split
          · nofun
          · split
            · nofun
            · nofun

/-- A number that is not NaN has one sign. -/
lemma sign_of_ne_nan (h : order ≠ .nan) :
    order.isNegative = true ∨ order.isZero = true ∨ order.isPositive = true := by
  cases order with
  | nan => exact absurd rfl h
  | infinite negative =>
    cases negative with
    | true => exact .inl rfl
    | false => exact .inr (.inr rfl)
  | finite value =>
    rcases lt_trichotomy value 0 with hlt | heq | hgt
    · exact .inl (decide_eq_true hlt)
    · exact .inr (.inl (decide_eq_true heq))
    · exact .inr (.inr (decide_eq_true hgt))

lemma not_positive_of_zero (h : order.isZero = true) : order.isPositive = false := by
  cases order with
  | nan => cases h
  | infinite negative => cases h
  | finite value =>
    have hzero : value = 0 := of_decide_eq_true h
    rw [hzero]
    rfl

lemma not_zero_of_negative (h : order.isNegative = true) : order.isZero = false := by
  cases order with
  | nan => rfl
  | infinite negative => rfl
  | finite value =>
    have hnegative : value < 0 := of_decide_eq_true h
    exact decide_eq_false (ne_of_lt hnegative)

lemma not_positive_of_negative (h : order.isNegative = true) : order.isPositive = false := by
  cases order with
  | nan => cases h
  | infinite negative =>
    have htrue : negative = true := h
    rw [htrue]
    rfl
  | finite value =>
    have hnegative : value < 0 := of_decide_eq_true h
    exact decide_eq_false (not_lt_of_gt hnegative)

/-- A consistent comparison function for some values: what it answers for two of them is always
the same, and orders them. -/
structure Consistent (compare : Value Defined → Value Defined → Effect World Abrupt Number)
    (values : Value Defined → Prop) (value : Value Defined → Value Defined → Number) : Prop where
  returns : ∀ a b, values a → values b → ∀ world, ∃ world',
    compare a b world = (.ok (value a b), world')
  refl : ∀ a, values a → (value a a).isZero
  symm : ∀ a b, values a → values b → (value a b).isZero → (value b a).isZero
  trans_zero : ∀ a b c, values a → values b → values c → (value a b).isZero →
    (value b c).isZero → (value a c).isZero
  trans_negative : ∀ a b c, values a → values b → values c → (value a b).isNegative →
    (value b c).isNegative → (value a c).isNegative
  trans_positive : ∀ a b c, values a → values b → values c → (value a b).isPositive →
    (value b c).isPositive → (value a c).isPositive

/-- The elements of a list other than undefined. -/
def DefinedIn (list : List (Value Defined)) (a : Value Defined) : Prop :=
  a ∈ list ∧ a.isUndefined = false

/-- One element may stand before another, as a consistent comparison function orders them. -/
def InOrder (value : Value Defined → Value Defined → Number) : Value Defined → Value Defined → Prop
  | _, .undefined => True
  | .undefined, .defined _ => False
  | .defined left, .defined right => (value (.defined left) (.defined right)).isPositive = false

/-- Two elements tie. -/
def Tied (value : Value Defined → Value Defined → Number) : Value Defined → Value Defined → Bool
  | .undefined, .undefined => true
  | .defined left, .defined right => (value (.defined left) (.defined right)).isZero
  | _, _ => false

namespace Consistent

variable (h : Consistent (compareArrayElements engine comparator) (DefinedIn list) value)
include h

section
variable [Nonempty World] (ha : DefinedIn list a) (hb : DefinedIn list b)
include ha hb

lemma sign :
    (value a b).isNegative = true ∨ (value a b).isZero = true ∨ (value a b).isPositive = true := by
  obtain ⟨world⟩ := ‹Nonempty World›
  obtain ⟨world', hreturns⟩ := h.returns a b ha hb world
  exact sign_of_ne_nan (compareArrayElements_ne_nan hreturns)

/-- What goes behind an element has it in front. -/
lemma negative_of_positive
    (hpositive : (value a b).isPositive = true) : (value b a).isNegative = true := by
  rcases h.sign hb ha with hnegative | hzero | hpositive'
  · exact hnegative
  · have hzero' : (value a b).isZero = true := h.symm b a hb ha hzero
    rw [not_positive_of_zero hzero'] at hpositive
    cases hpositive
  · have hself : (value a a).isPositive = true :=
      h.trans_positive a b a ha hb ha hpositive hpositive'
    rw [not_positive_of_zero (h.refl a ha)] at hself
    cases hself

lemma not_positive_trans (hc : DefinedIn list c) (hab : (value a b).isPositive = false)
    (hbc : (value b c).isPositive = false) : (value a c).isPositive = false := by
  by_contra hac
  rw [Bool.not_eq_false] at hac
  have hca : (value c a).isNegative = true := h.negative_of_positive ha hc hac
  have hfirst : (value a b).isNegative = true ∨ (value a b).isZero = true := by
    rcases h.sign ha hb with hsign | hsign | hsign
    · exact .inl hsign
    · exact .inr hsign
    · rw [hab] at hsign
      cases hsign
  have hsecond : (value b c).isNegative = true ∨ (value b c).isZero = true := by
    rcases h.sign hb hc with hsign | hsign | hsign
    · exact .inl hsign
    · exact .inr hsign
    · rw [hbc] at hsign
      cases hsign
  -- Whichever the signs are, two of the three elements are in a strict order and the other way.
  have hstrict : ∀ {x y}, DefinedIn list x → DefinedIn list y → (value x y).isZero = true →
      (value y x).isNegative = true → False := by
    intro x y hx hy hzero hnegative
    have hzero' := h.symm x y hx hy hzero
    rw [not_zero_of_negative hnegative] at hzero'
    cases hzero'
  rcases hfirst with hab | hab
  · rcases hsecond with hbc | hbc
    · have hnegative := h.trans_negative a b c ha hb hc hab hbc
      rw [not_positive_of_negative hnegative] at hac
      cases hac
    · exact hstrict hb hc hbc (h.trans_negative c a b hc ha hb hca hab)
  · rcases hsecond with hbc | hbc
    · exact hstrict ha hb hab (h.trans_negative b c a hb hc ha hbc hca)
    · have hzero := h.trans_zero a b c ha hb hc hab hbc
      rw [not_positive_of_zero hzero] at hac
      cases hac

end

end Consistent

/-! ## The order of the sorted list -/

/-- Two elements of the list are in order. -/
def Ordered (list : List (Value Defined)) (value : Value Defined → Value Defined → Number)
    (a b : Value Defined) : Prop :=
  a ∈ list ∧ b ∈ list ∧ InOrder value a b

section Order

variable (h : Consistent (compareArrayElements engine comparator) (DefinedIn list) value)
include h

lemma ordered_trans [Nonempty World] (hab : Ordered list value a b)
    (hbc : Ordered list value b c) : Ordered list value a c := by
  refine ⟨hab.1, hbc.2.1, ?_⟩
  have hfirst := hab.2.2
  have hsecond := hbc.2.2
  cases c with
  | undefined => cases a <;> trivial
  | defined right =>
    cases b with
    | undefined => exact hsecond.elim
    | defined middle =>
      cases a with
      | undefined => exact hfirst.elim
      | defined left =>
        exact h.not_positive_trans ⟨hab.1, rfl⟩ ⟨hab.2.1, rfl⟩ ⟨hbc.2.1, rfl⟩ hfirst hsecond

/-- An answer about two defined elements is the value of the comparison function. -/
lemma answer_value {left right : Defined} {second : Bool}
    (hanswer : Answers (compareArrayElements engine comparator) list (.defined left)
      (.defined right) second) : (value (.defined left) (.defined right)).isPositive = second := by
  obtain ⟨hleft, hright, world, order, world', hcompare, hpositive⟩ := hanswer
  obtain ⟨world'', hreturns⟩ := h.returns _ _ ⟨hleft, rfl⟩ ⟨hright, rfl⟩ world
  rw [hcompare] at hreturns
  rw [← Except.ok.inj (Prod.mk.inj hreturns).1]
  exact hpositive

lemma ordered_of_kept (hanswer : Answers (compareArrayElements engine comparator) list a b false) :
    Ordered list value a b := by
  refine ⟨hanswer.1, hanswer.2.1, ?_⟩
  cases b with
  | undefined => cases a <;> trivial
  | defined right =>
    cases a with
    | defined left => exact answer_value h hanswer
    | undefined =>
      obtain ⟨-, -, world, order, world', hcompare, hpositive⟩ := hanswer
      cases hcompare
      cases hpositive

lemma ordered_of_swapped [Nonempty World]
    (hanswer : Answers (compareArrayElements engine comparator) list a b true) :
    Ordered list value b a := by
  refine ⟨hanswer.2.1, hanswer.1, ?_⟩
  cases a with
  | undefined => cases b <;> trivial
  | defined left =>
    cases b with
    | defined right =>
      have hpositive := answer_value h hanswer
      exact not_positive_of_negative
        (h.negative_of_positive ⟨hanswer.1, rfl⟩ ⟨hanswer.2.1, rfl⟩ hpositive)
    | undefined =>
      obtain ⟨-, -, world, order, world', hcompare, hpositive⟩ := hanswer
      cases hcompare
      cases hpositive

lemma not_ordered_of_swapped
    (hanswer : Answers (compareArrayElements engine comparator) list a b true) :
    ¬ Ordered list value a b := by
  rintro ⟨-, -, horder⟩
  cases a with
  | undefined =>
    cases b with
    | defined right => exact horder
    | undefined =>
      obtain ⟨-, -, world, order, world', hcompare, hpositive⟩ := hanswer
      cases hcompare
      cases hpositive
  | defined left =>
    cases b with
    | defined right =>
      have hpositive := answer_value h hanswer
      have horder : (value (.defined left) (.defined right)).isPositive = false := horder
      rw [hpositive] at horder
      cases horder
    | undefined =>
      obtain ⟨-, -, world, order, world', hcompare, hpositive⟩ := hanswer
      cases hcompare
      cases hpositive

/-- Elements that tie with one element may stand in any order. -/
lemma ordered_of_tied {element : Value Defined} (helement : element ∈ list) (ha : a ∈ list)
    (hb : b ∈ list) (htied : Tied value element a = true) (htied' : Tied value element b = true) :
    Ordered list value a b := by
  refine ⟨ha, hb, ?_⟩
  cases b with
  | undefined => cases a <;> trivial
  | defined right =>
    cases element with
    | undefined => cases htied'
    | defined middle =>
      cases a with
      | undefined => cases htied
      | defined left =>
        apply not_positive_of_zero
        exact h.trans_zero _ _ _ ⟨ha, rfl⟩ ⟨helement, rfl⟩ ⟨hb, rfl⟩
          (h.symm _ _ ⟨helement, rfl⟩ ⟨ha, rfl⟩ htied) htied'

end Order

section
variable [Nonempty World]
  (h : Consistent (compareArrayElements engine comparator) (DefinedIn list) value)
  (hsorts : Sorts (Answers (compareArrayElements engine comparator) list) 1 list sorted)
include h hsorts

/-- A sort with a consistent comparison function puts the elements in order. -/
lemma sorts_inOrder :
    sorted.Pairwise (InOrder value) := by
  have hordered : sorted.Pairwise (Ordered list value) :=
    hsorts.pairwise (fun _ _ _ => ordered_trans h) (fun _ _ => ordered_of_kept h)
      (fun _ _ => ordered_of_swapped h)
      (.singles (fun _ => pairwise_singleton _ _) list)
  exact hordered.imp fun hab => hab.2.2

/-- The elements that tie stay in the order they were collected in. -/
lemma sorts_stable {element : Value Defined} (helement : element ∈ list) :
    sorted.filter (Tied value element) = list.filter (Tied value element) := by
  classical
  have hfilter : sorted.filter (fun a => decide (a ∈ list) && Tied value element a) =
      list.filter (fun a => decide (a ∈ list) && Tied value element a) := by
    have hstrict : ∀ a b, Answers (compareArrayElements engine comparator) list a b true →
        ¬ Ordered list value a b := fun _ _ => not_ordered_of_swapped h
    have htrans : ∀ a b c, Ordered list value a b → Ordered list value b c →
        Ordered list value a c := fun _ _ _ => ordered_trans h
    apply hsorts.filter htrans (fun _ _ => ordered_of_kept h) (fun _ _ => ordered_of_swapped h)
      hstrict
    · intro a b ha hb
      rw [Bool.and_eq_true, decide_eq_true_eq] at ha hb
      exact ordered_of_tied h helement ha.1 hb.1 ha.2 hb.2
    · exact .singles (fun _ => pairwise_singleton _ _) list
  have hmembers : ∀ values : List (Value Defined), (∀ a ∈ values, a ∈ list) →
      values.filter (fun a => decide (a ∈ list) && Tied value element a) =
        values.filter (Tied value element) := by
    intro values hvalues
    apply filter_congr
    intro a ha
    rw [decide_eq_true (hvalues a ha), Bool.true_and]
  rw [hmembers sorted fun a ha => hsorts.perm.mem_iff.mp ha, hmembers list fun _ ha => ha]
    at hfilter
  exact hfilter

end

/-- Whatever a comparator answers, undefined goes last. -/
lemma sorts_undefinedLast
    (hsorts : Sorts (Answers (compareArrayElements engine comparator) list) 1 list sorted) :
    sorted.Pairwise fun a b => a.isUndefined = true → b.isUndefined = true := by
  apply hsorts.pairwise (fun a b c hab hbc ha => hbc (hab ha))
  · intro a b hanswer ha
    obtain ⟨-, -, world, order, world', hcompare, hpositive⟩ := hanswer
    cases a with
    | defined left => cases ha
    | undefined =>
      cases b with
      | undefined => rfl
      | defined right =>
        cases hcompare
        cases hpositive
  · intro a b hanswer hb
    obtain ⟨-, -, world, order, world', hcompare, hpositive⟩ := hanswer
    cases b with
    | defined right => cases hb
    | undefined =>
      cases a with
      | undefined => rfl
      | defined left =>
        cases hcompare
        cases hpositive
  · exact .singles (fun _ => pairwise_singleton _ _) list

/-- The comparisons of a consistent comparison function are never abrupt. -/
lemma compares_normal {outcome : Except Abrupt Unit}
    (h : Consistent (compareArrayElements engine comparator) (DefinedIn list) value)
    (hcompares : Compares (compareArrayElements engine comparator) list world outcome world') :
    outcome = .ok () := by
  obtain ⟨pairs, hpairs, hperforms⟩ := hcompares
  induction hperforms with
  | nil world => rfl
  | cons made rest ih => exact ih fun pair hpair => hpairs pair (mem_cons_of_mem _ hpair)
  | @abrupt pair reason world world' made =>
    exfalso
    obtain ⟨hleft, hright⟩ := hpairs pair mem_cons_self
    obtain ⟨left, right⟩ := pair
    cases left with
    | undefined => cases right <;> cases made
    | defined left =>
      cases right with
      | undefined => cases made
      | defined right =>
        obtain ⟨world'', hreturns⟩ := h.returns _ _ ⟨hleft, rfl⟩ ⟨hright, rfl⟩ world
        rw [show compareArrayElements engine comparator _ _ world = _ from made] at hreturns
        cases hreturns

/-! ## What a method does -/

/-- What `sort` does once it has its receiver and its length. -/
inductive Action (Defined : Type)
  | hasProperty (index : ℕ)
  | get (index : ℕ)
  | compare (left right : Value Defined)
  | set (index : ℕ) (value : Value Defined)
  | delete (index : ℕ)

/-- A result that is not read. -/
def unread {α : Type} (left : Except Abrupt α × World) : Except Abrupt Unit × World :=
  (left.1.map fun _ => (), left.2)

def Action.perform (engine : Engine World Abrupt Defined) (comparator object : Value Defined) :
    Action Defined → World → Except Abrupt Unit × World
  | .hasProperty index, world => unread (engine.hasProperty object index world)
  | .get index, world => unread (engine.objectGet object index world)
  | .compare left right, world =>
    unread (compareArrayElements engine comparator left right world)
  | .set index value, world => engine.objectSet object index value world
  | .delete index, world => engine.objectDelete object index world

/-- An action reads the receiver. -/
def Action.Reads : Action Defined → Prop
  | .hasProperty _ => True
  | .get _ => True
  | _ => False

/-- An action writes the receiver. -/
def Action.Writes : Action Defined → Prop
  | .set _ _ => True
  | .delete _ => True
  | _ => False

section Actions

variable {object receiver : Value Defined} {arguments : List (Value Defined)} {length : ℕ}

variable (engine comparator object) in
/-- Collecting reads the receiver. -/
lemma collectLoop_reads (left index : ℕ) (list : List (Value Defined)) (world : World) :
    ∃ actions : List (Action Defined), (∀ action ∈ actions, action.Reads) ∧
      Performs (Action.perform engine comparator object) world actions
        ((collectLoop engine object false left index list world).1.map fun _ => ())
        (collectLoop engine object false left index list world).2 := by
  induction left generalizing index list world with
  | zero => exact ⟨[], fun _ hmem => (by cases hmem), .nil world⟩
  | succ left ih =>
    rw [collectLoop]
    dsimp only
    rw [if_neg Bool.false_ne_true]
    have hhas : Action.perform engine comparator object (.hasProperty index) world =
        unread (engine.hasProperty object index world) := rfl
    split
    · next reason world₁ hpresent =>
      rw [hpresent] at hhas
      refine ⟨[.hasProperty index], fun action haction => ?_, .abrupt hhas⟩
      rw [mem_singleton.mp haction]
      trivial
    · next world₁ hpresent =>
      rw [hpresent] at hhas
      obtain ⟨actions, hreads, hperforms⟩ := ih (index + 1) list world₁
      exact ⟨.hasProperty index :: actions, forall_mem_cons.mpr ⟨trivial, hreads⟩,
        .cons hhas hperforms⟩
    · next world₁ hpresent =>
      rw [hpresent] at hhas
      have hget : Action.perform engine comparator object (.get index) world₁ =
          unread (engine.objectGet object index world₁) := rfl
      split
      · next reason world₂ hvalue =>
        rw [hvalue] at hget
        exact ⟨[.hasProperty index, .get index], by simp [Action.Reads],
          .cons hhas (.abrupt hget)⟩
      · next value world₂ hvalue =>
        rw [hvalue] at hget
        obtain ⟨actions, hreads, hperforms⟩ := ih (index + 1) (list ++ [value]) world₂
        refine ⟨.hasProperty index :: .get index :: actions, ?_,
          .cons hhas (.cons hget hperforms)⟩
        exact forall_mem_cons.mpr ⟨trivial, forall_mem_cons.mpr ⟨trivial, hreads⟩⟩

variable (engine comparator object) in
/-- Publishing writes the receiver. -/
lemma publishLoop_writes (list : List (Value Defined)) (index : ℕ) (world : World) :
    ∃ actions : List (Action Defined), (∀ action ∈ actions, action.Writes) ∧
      Performs (Action.perform engine comparator object) world actions
        (publishLoop (engine.objectSet object) index list world).1
        (publishLoop (engine.objectSet object) index list world).2 := by
  induction list generalizing index world with
  | nil => exact ⟨[], fun _ hmem => (by cases hmem), .nil world⟩
  | cons value list ih =>
    rw [publishLoop]
    have hset : Action.perform engine comparator object (.set index value) world =
        engine.objectSet object index value world := rfl
    dsimp only
    split
    · next reason world₁ hresult =>
      rw [hresult] at hset
      refine ⟨[.set index value], fun action haction => ?_, .abrupt hset⟩
      rw [mem_singleton.mp haction]
      trivial
    · next world₁ hresult =>
      rw [hresult] at hset
      obtain ⟨actions, hwrites, hperforms⟩ := ih (index + 1) world₁
      exact ⟨.set index value :: actions, forall_mem_cons.mpr ⟨trivial, hwrites⟩,
        .cons hset hperforms⟩

variable (engine comparator object) in
/-- Deleting writes the receiver. -/
lemma deleteLoop_writes (left index : ℕ) (world : World) :
    ∃ actions : List (Action Defined), (∀ action ∈ actions, action.Writes) ∧
      Performs (Action.perform engine comparator object) world actions
        (deleteLoop engine object left index world).1
        (deleteLoop engine object left index world).2 := by
  induction left generalizing index world with
  | zero => exact ⟨[], fun _ hmem => (by cases hmem), .nil world⟩
  | succ left ih =>
    rw [deleteLoop]
    have hdelete : Action.perform engine comparator object (.delete index) world =
        engine.objectDelete object index world := rfl
    dsimp only
    split
    · next reason world₁ hresult =>
      rw [hresult] at hdelete
      refine ⟨[.delete index], fun action haction => ?_, .abrupt hdelete⟩
      rw [mem_singleton.mp haction]
      trivial
    · next world₁ hresult =>
      rw [hresult] at hdelete
      obtain ⟨actions, hwrites, hperforms⟩ := ih (index + 1) world₁
      exact ⟨.delete index :: actions, forall_mem_cons.mpr ⟨trivial, hwrites⟩,
        .cons hdelete hperforms⟩

variable (engine comparator object length) in
/-- What sorting the indices of a receiver does: it reads it, then compares what it read. -/
lemma sortIndexedProperties_actions (world : World) :
    ∃ result reads compares world', sortIndexedProperties engine object length comparator false
        world = some (result, world') ∧
      (∀ action ∈ reads, Action.Reads action) ∧
      (∀ action ∈ compares, ∃ left right, action = .compare left right) ∧
      Performs (Action.perform engine comparator object) world (reads ++ compares)
        (result.map fun _ => ()) world' := by
  obtain ⟨reads, hreads, hperforms⟩ := collectLoop_reads engine comparator object length 0 []
    world
  unfold sortIndexedProperties
  split
  · next reason world₁ hcollect =>
    rw [hcollect] at hperforms
    refine ⟨.error reason, reads, [], world₁, rfl, hreads, nofun, ?_⟩
    rw [append_nil]
    exact hperforms
  · next list world₁ hcollect =>
    rw [hcollect] at hperforms
    obtain ⟨outcome, sorted, world₂, hsort, ⟨pairs, -, hpairs⟩, -⟩ :=
      arrayMergeSort_sorts engine list comparator world₁
    have hcompares : Performs (Action.perform engine comparator object) world₁
        (pairs.map fun pair => .compare pair.1 pair.2) outcome world₂ :=
      hpairs.map fun _ _ => rfl
    have hform : ∀ action ∈ pairs.map fun pair => Action.compare pair.1 pair.2,
        ∃ left right, action = .compare left right := by
      intro action haction
      obtain ⟨pair, -, rfl⟩ := mem_map.mp haction
      exact ⟨pair.1, pair.2, rfl⟩
    rw [hsort]
    cases outcome with
    | error reason =>
      exact ⟨.error reason, reads, _, world₂, rfl, hreads, hform, hperforms.append hcompares⟩
    | ok => exact ⟨.ok sorted, reads, _, world₂, rfl, hreads, hform, hperforms.append hcompares⟩

/-- What `sort` does with its receiver: it reads it, compares, and only then writes it. -/
lemma sort_actions {world₁ world₂ : World} (hcomparator : arguments.head?.getD .undefined = comparator)
    (hcallable : comparator.isUndefined = true ∨ engine.isCallable comparator = true)
    (hobject : engine.toObject receiver world = (.ok object, world₁))
    (hlength : engine.arrayLikeLength object world₁ = (.ok length, world₂)) :
    ∃ result reads compares writes world', arraySorting engine receiver arguments false world =
        some (result, world') ∧
      (∀ action ∈ reads, Action.Reads action) ∧
      (∀ action ∈ compares, ∃ left right, action = .compare left right) ∧
      (∀ action ∈ writes, Action.Writes action) ∧
      Performs (Action.perform engine comparator object) world₂ (reads ++ compares ++ writes)
        (result.map fun _ => ()) world' := by
  obtain ⟨sorted, reads, compares, world₃, hsort, hreads, hcompares, hperforms⟩ :=
    sortIndexedProperties_actions engine comparator object length world₂
  unfold arraySorting
  rw [hcomparator, if_neg (by
    rcases hcallable with hcallable | hcallable
    · simp [hcallable]
    · simp [hcallable]), hobject]
  dsimp only
  rw [hlength]
  dsimp only
  rw [if_neg Bool.false_ne_true]
  dsimp only
  rw [hsort]
  cases sorted with
  | error reason =>
    refine ⟨.error reason, reads, compares, [], world₃, rfl, hreads, hcompares, nofun, ?_⟩
    rw [append_nil]
    exact hperforms
  | ok list =>
    dsimp only
    rw [if_neg Bool.false_ne_true, if_neg Bool.false_ne_true, if_neg Bool.false_ne_true]
    obtain ⟨publishes, hpublishes, hpublished⟩ := publishLoop_writes engine comparator object list 0
      world₃
    split
    · next reason world₄ hpublish =>
      rw [hpublish] at hpublished
      exact ⟨.error reason, reads, compares, publishes, world₄, rfl, hreads, hcompares,
        hpublishes, hperforms.append hpublished⟩
    · next world₄ hpublish =>
      rw [hpublish] at hpublished
      obtain ⟨deletes, hdeletes, hdeleted⟩ := deleteLoop_writes engine comparator object
        (length - list.length) list.length world₄
      have hwrites : ∀ action ∈ publishes ++ deletes, Action.Writes action := by
        intro action haction
        rcases mem_append.mp haction with haction | haction
        · exact hpublishes action haction
        · exact hdeletes action haction
      split
      · next reason world₅ hdelete =>
        rw [hdelete] at hdeleted
        exact ⟨.error reason, reads, compares, publishes ++ deletes, world₅, rfl, hreads,
          hcompares, hwrites, hperforms.append (hpublished.append hdeleted)⟩
      · next world₅ hdelete =>
        rw [hdelete] at hdeleted
        exact ⟨.ok object, reads, compares, publishes ++ deletes, world₅, rfl, hreads, hcompares,
          hwrites, hperforms.append (hpublished.append hdeleted)⟩

end Actions

/-- The merge sort ends, compares elements of its list only, and leaves the elements in order; the
receiver of `sort` is not written if a comparison is abrupt, which then is the last action. -/
theorem arrayMergeSort_correct (engine : Engine World Abrupt Defined) (comparator : Value Defined)
    (list : List (Value Defined)) (world : World) :
    (∃ outcome sorted world', arrayMergeSort engine list comparator world =
        some (outcome, sorted, world') ∧
      Compares (compareArrayElements engine comparator) list world outcome world' ∧
      (outcome = .ok () → sorted.Perm list ∧
        sorted.Pairwise fun a b => a.isUndefined = true → b.isUndefined = true) ∧
      ∀ value, Consistent (compareArrayElements engine comparator) (DefinedIn list) value →
        outcome = .ok () ∧ sorted.Pairwise (InOrder value) ∧
          ∀ element ∈ list, sorted.filter (Tied value element) =
            list.filter (Tied value element)) ∧
    ∀ receiver arguments object length world₁ world₂,
      arguments.head?.getD .undefined = comparator →
      comparator.isUndefined = true ∨ engine.isCallable comparator = true →
      engine.toObject receiver world = (.ok object, world₁) →
      engine.arrayLikeLength object world₁ = (.ok length, world₂) →
      ∃ result actions world', arraySorting engine receiver arguments false world =
          some (result, world') ∧
        Performs (Action.perform engine comparator object) world₂ actions
          (result.map fun _ => ()) world' ∧
        ∀ steps left right, actions = steps ++ [.compare left right] →
          ∀ action ∈ actions, ¬ action.Writes := by
  constructor
  · obtain ⟨outcome, sorted, world', hsort, hcompares, hsorts⟩ :=
      arrayMergeSort_sorts engine list comparator world
    refine ⟨outcome, sorted, world', hsort, hcompares, fun hok => ?_, fun value hconsistent => ?_⟩
    · exact ⟨(hsorts hok).perm, sorts_undefinedLast (hsorts hok)⟩
    · have hok : outcome = .ok () := compares_normal hconsistent hcompares
      have hworld : Nonempty World := ⟨world⟩
      exact ⟨hok, sorts_inOrder hconsistent (hsorts hok), fun element helement =>
        sorts_stable hconsistent (hsorts hok) helement⟩
  · intro receiver arguments object length world₁ world₂ hcomparator hcallable hobject hlength
    obtain ⟨result, reads, compares, writes, world', hsort, hreads, hcompares, hwrites,
      hperforms⟩ := sort_actions hcomparator hcallable hobject hlength
    refine ⟨result, _, world', hsort, hperforms, fun steps left right hlast => ?_⟩
    -- A last action that compares has no write behind it.
    have hnone : writes = [] := by
      rcases eq_nil_or_concat writes with hnil | ⟨front, write, hconcat⟩
      · exact hnil
      · rw [hconcat, concat_eq_append, ← append_assoc] at hlast
        have hwrite : write = .compare left right :=
          (cons.inj (append_inj_right' hlast rfl)).1
        have hwritten : write.Writes := hwrites write (by simp [hconcat])
        rw [hwrite] at hwritten
        exact hwritten.elim
    rw [hnone, append_nil]
    intro action haction hwritten
    rcases mem_append.mp haction with haction | haction
    · have hread := hreads action haction
      cases action <;> first | exact hread.elim | exact hwritten.elim
    · obtain ⟨left, right, rfl⟩ := hcompares action haction
      exact hwritten.elim

/-- Numbers with a comparator that throws when it is called for the fourth time. -/
def throwingEngine : Engine ℕ Unit ℕ where
  isCallable _ := true
  callFunction _ arguments world :=
    if world = 3 then (.error (), 4)
    else match arguments with
      | [.defined left, .defined right] =>
        (.ok (.defined (if right < left then 1 else 0)), world + 1)
      | _ => (.ok .undefined, world + 1)
  toNumber value world := match value with
    | .undefined => (.ok .nan, world)
    | .defined number => (.ok (.finite number), world)
  toString _ world := (.ok [], world)
  toObject value world := (.ok value, world)
  arrayLikeLength _ world := (.ok 0, world)
  typeError _ world := (.error (), world)
  rangeError _ world := (.error (), world)
  arrayCreate _ world := (.ok .undefined, world)
  hasProperty _ _ world := (.ok false, world)
  objectGet _ _ world := (.ok .undefined, world)
  objectSet _ _ _ world := (.ok (), world)
  objectDelete _ _ world := (.ok (), world)
  createIndexProperty _ _ _ world := (.ok (), world)

/-- An abrupt comparison of the second pass leaves the list half overwritten. -/
theorem arrayMergeSort_abrupt : ¬ ∀ (World Abrupt Defined : Type)
    (engine : Engine World Abrupt Defined) (list : List (Value Defined))
    (comparator : Value Defined) (world : World), ∃ outcome sorted world',
      arrayMergeSort engine list comparator world = some (outcome, sorted, world') ∧
        sorted.Perm list := by
  intro hclaim
  obtain ⟨outcome, sorted, world', hsort, hperm⟩ := hclaim ℕ Unit ℕ throwingEngine
    [.defined 4, .defined 3, .defined 2, .defined 1] (.defined 0) 0
  have hrun : arrayMergeSort throwingEngine [.defined 4, .defined 3, .defined 2, .defined 1]
      (.defined 0) 0 = some (.error (), [.defined 1, .defined 3, .defined 2, .defined 1], 4) := by
    rfl
  rw [hrun] at hsort
  cases hsort
  revert hperm
  decide

end Oseo.ArraySorting
