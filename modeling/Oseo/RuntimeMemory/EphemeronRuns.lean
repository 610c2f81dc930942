import Oseo.RuntimeMemory.EphemeronTheorems
import Oseo.Library.Runs

/-!
# Runs of the ephemeron table

Any sequence of operations and collections on one table. A collection drops the keys it did
not mark; apart from that the table is a map from keys to values.

* `EphemeronStep` is one operation with its result;
* `contentsAfter` is the map that a sequence of operations leaves;
* `ephemeronRun_correct` says that every reachable table is well formed and agrees with it.
-/

namespace Oseo.RuntimeMemory

open Option
open List
open Oseo.Library

variable {K V : Type} [DecidableEq K] [Inhabited V] {address : K → ℕ} {s s' : Ephemerons K V}
  {chain : List EntryRef}

/-! ## Storing a value -/

/-- The contents a collection leaves, if there was one. -/
def afterCollection (collected : Option (K → Bool)) (m : K → Option V) (key : K) : Option V :=
  if collected.all (· key) then m key else none

/-- The allocator returns no record in use: after the index was reserved and the collection
ran, no slot leads to the new record. -/
def SetFresh (address : K → ℕ) (s : Ephemerons K V) (ref : EntryRef) (env : SetEnvironment K) :
    Prop :=
  ∀ s₁ s₂, ephemeronIndexReserve address env.indexAllocated s = some (true, s₁) →
    env.collected.elim (some s₁) (ephemeronCollect address · s₁) = some s₂ →
    ∀ slot, slotAt s₂.table.index slot ≠ .entry ref

omit [Inhabited V] in
/-- Storing into an entry that is there. -/
lemma Ephemerons.Valid.setValue (h : s.Valid address chain) {r : EntryRef} {key : K}
    (hr : r ∈ chain) (hkey : s.keyOf r = some key) (value : V) :
    (s.setEntry r fun e => { e with value := value }).Valid address chain ∧
      ∀ key', (s.setEntry r fun e => { e with value := value }).contents chain key' =
        if key' = key then some value else s.contents chain key' := by
  have hentries : ∀ x, (s.setEntry r fun e => { e with value := value }).entries x =
      { s.entries x with value := if x = r then value else (s.entries x).value } := by
    intro x
    rw [setEntry_entries]
    by_cases hxr : x = r
    · rw [if_pos hxr, if_pos hxr, hxr]
    · rw [if_neg hxr, if_neg hxr]
  have hkeys : ∀ x, (s.setEntry r fun e => { e with value := value }).keyOf x = s.keyOf x := by
    intro x
    unfold Ephemerons.keyOf
    rw [hentries]
  have hvalid : (s.setEntry r fun e => { e with value := value }).Valid address chain := by
    constructor
    case tail => exact h.tail
    case toLinked =>
      constructor
      case forward =>
        refine h.forward.congr fun x _ => ?_
        show (Ephemerons.entries _ x).next = _
        rw [hentries]
      case back =>
        refine h.back.congr fun x _ => ?_
        show (Ephemerons.entries _ x).previous = _
        rw [hentries]
      case nodup => exact h.nodup
      case live => exact h.live
      case index => exact h.index.congr fun _ x _ => hkeys x
      case indexed => exact h.indexed
      case used => exact h.used
      case capacity => exact h.capacity
      case room => exact h.room
  refine ⟨hvalid, fun key' => ?_⟩
  by_cases heq : key' = key
  · rw [if_pos heq, heq, hvalid.contents_mem hr ((hkeys r).trans hkey), hentries, if_pos rfl]
  · rw [if_neg heq]
    unfold Ephemerons.contents
    simp only [hkeys]
    cases hf : chain.find? fun x => s.keyOf x = some key' with
    | none => rfl
    | some x =>
      have hx : s.keyOf x = some key' := by simpa using find?_some hf
      rw [map_some, map_some, hentries, if_neg]
      intro hxr
      rw [hxr, hkey, some.injEq] at hx
      exact heq hx.symm

omit [Inhabited V] in
/-- The contents with one more entry. -/
lemma Appends.contents {t : Ephemerons K V} {ref : EntryRef} {key : K} {value : V}
    (hu : Appends s t ref key value) (hfresh : ref ∉ chain)
    (hnew : ∀ x ∈ chain, s.keyOf x ≠ some key) (key' : K) :
    t.contents (chain ++ [ref]) key' =
      if key' = key then some value else s.contents chain key' := by
  have hkeys : ∀ x ∈ chain, t.keyOf x = s.keyOf x ∧ (t.entries x).value = (s.entries x).value := by
    intro x hx
    unfold Ephemerons.keyOf
    rw [hu.others x fun hxr => hfresh (hxr ▸ hx)]
    exact ⟨rfl, rfl⟩
  have hfind : (chain.find? fun x => t.keyOf x = some key') =
      chain.find? fun x => s.keyOf x = some key' := by
    apply find?_congr
    intro x hx
    rw [(hkeys x hx).1]
  unfold Ephemerons.contents
  rw [find?_append, hfind]
  cases hf : chain.find? fun x => s.keyOf x = some key' with
  | some x =>
    have hx := mem_of_find?_eq_some hf
    rw [some_or, map_some, map_some, (hkeys x hx).2, if_neg]
    intro heq
    have hkey : s.keyOf x = some key' := by simpa using find?_some hf
    exact hnew x hx (heq ▸ hkey)
  | none =>
    rw [none_or, find?_singleton, Ephemerons.keyOf, hu.entry]
    by_cases heq : key' = key
    · rw [if_pos heq, heq, if_pos (by simp), map_some, hu.entry]
    · rw [if_neg heq, if_neg (by simpa using Ne.symm heq)]
      rfl

/-- The collection inside a `set`, if there is one. -/
lemma Ephemerons.Valid.collectDuring (h : s.Valid address chain) (collected : Option (K → Bool)) :
    ∃ s' chain', collected.elim (some s) (ephemeronCollect address · s) = some s' ∧
      s'.Valid address chain' ∧ s'.table.index.length = s.table.index.length ∧
      s'.table.indexUsed = s.table.indexUsed ∧
      ∀ key, s'.contents chain' key = afterCollection collected (s.contents chain) key := by
  cases collected with
  | none => exact ⟨s, chain, rfl, h, rfl, rfl, fun key => rfl⟩
  | some marked =>
    obtain ⟨s', chain', hrun, hvalid, -, hlen, hused, hcontents⟩ := h.collect marked
    exact ⟨s', chain', hrun, hvalid, hlen, hused, hcontents⟩

/-- A `set` ends. It stores the value unless an allocation failed. -/
theorem Ephemerons.Valid.set (h : s.Valid address chain) (key : K) (value : V) {ref : EntryRef}
    {env : SetEnvironment K} (hfresh : SetFresh address s ref env) :
    ∃ outcome s' chain', ephemeronSet address s key value ref env = some (outcome, s') ∧
      s'.Valid address chain' ∧
      ∀ key', s'.contents chain' key' =
        if outcome.stored = true ∧ key' = key then some value
        else afterCollection outcome.collected (s.contents chain) key' := by
  unfold ephemeronSet
  by_cases hex : ∃ r ∈ chain, s.keyOf r = some key
  · obtain ⟨r, hr, hkey⟩ := hex
    obtain ⟨slot, hfind, hslot, -⟩ := h.find_some hr hkey
    obtain ⟨hvalid, hcontents⟩ := h.setValue hr hkey value
    rw [hfind]
    simp only [hslot]
    refine ⟨_, _, chain, rfl, hvalid, fun key' => ?_⟩
    rw [hcontents]
    simp [afterCollection]
  · push Not at hex
    rw [h.find_none hex]
    obtain ⟨ok, s₁, hreserve, h₁, hentries, hroom⟩ := h.reserve env.indexAllocated
    have hcontents₁ : s₁.contents chain = s.contents chain := by
      funext key'
      unfold Ephemerons.contents Ephemerons.keyOf
      rw [hentries]
    rw [hreserve]
    cases ok with
    | false =>
      refine ⟨_, s₁, chain, rfl, h₁, fun key' => ?_⟩
      rw [hcontents₁]
      simp [afterCollection]
    | true =>
      obtain ⟨s₂, chain₂, hcollect, h₂, hlen, hused, hcontents₂⟩ :=
        h₁.collectDuring env.collected
      dsimp only
      rw [hcollect]
      dsimp only
      split
      · refine ⟨_, s₂, chain₂, rfl, h₂, fun key' => ?_⟩
        rw [hcontents₂, hcontents₁]
        simp
      · have hnew : ∀ x ∈ chain₂, s₂.keyOf x ≠ some key := by
          intro x hx hkey
          have hsome := hcontents₂ key
          rw [h₂.contents_mem hx hkey, hcontents₁, afterCollection,
            Ephemerons.contents_none hex] at hsome
          split at hsome <;> cases hsome
        have href : ref ∉ chain₂ := by
          intro hmem
          obtain ⟨slot, hslot⟩ := (h₂.indexed ref).mp hmem
          exact hfresh s₁ s₂ hreserve hcollect slot hslot
        have htail : s₂.table.tail ≠ some ref := by
          rw [h₂.tail]
          exact fun hlast => href (lastOr_mem hlast)
        obtain ⟨hsome, hfree⟩ := hroom rfl
        have hu := appendEntry_appends htail key value
        obtain ⟨empty, index, hinsert, hvalid⟩ := h₂.append hu href hnew
          (by rw [hlen]; exact hsome) (by rw [hlen, hused]; exact hfree)
        rw [hinsert]
        refine ⟨_, _, chain₂ ++ [ref], rfl, hvalid, fun key' => ?_⟩
        show (appendEntry s₂ ref key value).contents _ key' = _
        rw [hu.contents href hnew, hcontents₂, hcontents₁]
        simp

/-! ## Runs -/

/-- One operation with its result. -/
inductive EphemeronEvent (K V : Type)
  | set (key : K) (value : V) (outcome : SetOutcome K)
  | get (key : K) (result : Option V)
  | has (key : K) (result : Bool)
  | delete (key : K) (result : Bool)
  | collect (marked : K → Bool)

/-- One operation on a table. -/
inductive EphemeronStep (address : K → ℕ) :
    Ephemerons K V → EphemeronEvent K V → Ephemerons K V → Prop
  | set {s s' : Ephemerons K V} {key : K} {value : V} {ref : EntryRef} {env : SetEnvironment K}
      {outcome : SetOutcome K} (fresh : SetFresh address s ref env)
      (h : ephemeronSet address s key value ref env = some (outcome, s')) :
      EphemeronStep address s (.set key value outcome) s'
  | get {s : Ephemerons K V} (key : K) :
      EphemeronStep address s (.get key (ephemeronGet address s key)) s
  | has {s : Ephemerons K V} (key : K) :
      EphemeronStep address s (.has key (ephemeronGet address s key).isSome) s
  | delete {s s' : Ephemerons K V} {key : K} {removed : Bool}
      (h : ephemeronDelete address s key = (removed, s')) :
      EphemeronStep address s (.delete key removed) s'
  | collect {s s' : Ephemerons K V} {marked : K → Bool}
      (h : ephemeronCollect address marked s = some s') :
      EphemeronStep address s (.collect marked) s'

/-- What one operation does to a map from keys to values. -/
def contentsStep (m : K → Option V) : EphemeronEvent K V → K → Option V
  | .set key value outcome =>
    let m := afterCollection outcome.collected m
    if outcome.stored then Function.update m key (some value) else m
  | .delete key _ => Function.update m key none
  | .collect marked => afterCollection (some marked) m
  | _ => m

/-- The value of the last `set` of each key that was neither deleted nor collected since. -/
def contentsAfter (events : List (EphemeronEvent K V)) : K → Option V :=
  events.foldl contentsStep fun _ => none

/-- The result an operation has on a map from keys to values. -/
def Answers (m : K → Option V) : EphemeronEvent K V → Prop
  | .get key result => result = m key
  | .has key result => result = (m key).isSome
  | .delete key result => result = (m key).isSome
  | _ => True

/-- A well-formed table with the contents `m`. -/
structure Ephemerons.Correct (address : K → ℕ) (s : Ephemerons K V) (m : K → Option V)
    (chain : List EntryRef) : Prop where
  forward : Chain (fun r => (s.entries r).next) s.table.head chain none
  back : BackChain (fun r => (s.entries r).previous) none chain
  last : s.table.tail = chain.getLast?
  nodup : chain.Nodup
  liveCount : s.table.liveCount = chain.length
  entry : ∀ r ∈ chain, ∃ key, (s.entries r).key = some key ∧ m key = some (s.entries r).value
  index : ∀ key r,
    (∃ slot, ephemeronIndexFind address s key = some slot ∧
      slotAt s.table.index slot = .entry r) ↔ r ∈ chain ∧ (s.entries r).key = some key
  indexed : ∀ r, r ∈ chain ↔ ∃ slot, slotAt s.table.index slot = .entry r
  get : ∀ key, ephemeronGet address s key = m key
  empty : s.table.index ≠ [] →
    ∃ slot < s.table.index.length, slotAt s.table.index slot = .empty
  probe : s.table.index ≠ [] → ∀ stop : Slot EntryRef → Bool, stop .empty = true → ∀ key,
    ∃ slot, probe s.table.index (ephemeronIndexNext s.table.index.length) stop
      s.table.index.length (ephemeronIndexStart address s.table.index.length key) = some slot
  set : ∀ key value ref env, SetFresh address s ref env →
    ∃ result, ephemeronSet address s key value ref env = some result
  collect : ∀ marked, ∃ s', ephemeronCollect address marked s = some s'

/-- The invariant gives a correct table. -/
lemma Ephemerons.Valid.correct (h : s.Valid address chain) :
    s.Correct address (s.contents chain) chain where
  forward := h.forward
  back := h.back
  last := by rw [h.tail, lastOr, or_none]
  nodup := h.nodup
  liveCount := h.live
  entry := fun r hr => by
    obtain ⟨key, hkey⟩ := h.keyed hr
    exact ⟨key, hkey, h.contents_mem hr hkey⟩
  index := fun key r => by
    constructor
    · rintro ⟨slot, hfind, hslot⟩
      have hr := (h.indexed r).mpr ⟨slot, hslot⟩
      refine ⟨hr, ?_⟩
      unfold ephemeronIndexFind at hfind
      dsimp only at hfind
      split at hfind
      · cases hfind
      · obtain ⟨x, hx, hkey⟩ := findSlot_some hfind
        rw [hslot] at hx
        cases hx
        exact hkey
    · rintro ⟨hr, hkey⟩
      obtain ⟨slot, hfind, hslot, -⟩ := h.find_some hr hkey
      exact ⟨slot, hfind, hslot⟩
  indexed := h.indexed
  get := h.get
  empty := fun hne => h.exists_empty fun hn => hne (eq_nil_of_length_eq_zero hn)
  probe := fun hne stop hstop key => by
    have hn : s.table.index.length ≠ 0 := fun hn => hne (eq_nil_of_length_eq_zero hn)
    obtain ⟨slot, hlt, hempty⟩ := h.exists_empty hn
    obtain ⟨d, hd, hslot⟩ := exists_iterate_nextSlot (ephemeronIndexStart_lt hn key) hlt
    rw [ephemeronIndexNext_eq h.capacity hn]
    apply probe_isSome hd
    rw [hslot, hempty]
    exact hstop
  set := fun key value ref env hfresh => by
    obtain ⟨outcome, s', -, hrun, -, -⟩ := h.set key value hfresh
    exact ⟨_, hrun⟩
  collect := fun marked => by
    obtain ⟨s', -, hrun, -⟩ := h.collect marked
    exact ⟨s', hrun⟩

/-- One operation keeps the invariant, and does to the contents what it does to a map. -/
theorem EphemeronStep.valid {event : EphemeronEvent K V} (h : s.Valid address chain)
    (hstep : EphemeronStep address s event s') :
    Answers (s.contents chain) event ∧ ∃ chain', s'.Valid address chain' ∧
      s'.contents chain' = contentsStep (s.contents chain) event := by
  cases hstep with
  | set fresh hrun =>
    next key value ref env outcome =>
    obtain ⟨outcome', s'', chain', hrun', hvalid, hcontents⟩ := h.set key value fresh
    rw [hrun] at hrun'
    cases hrun'
    refine ⟨trivial, chain', hvalid, funext fun key' => ?_⟩
    rw [hcontents, contentsStep]
    cases outcome.stored <;> simp [Function.update_apply]
  | get key => exact ⟨h.get key, chain, h, rfl⟩
  | has key => exact ⟨by rw [Answers, h.get key], chain, h, rfl⟩
  | delete hrun =>
    next key removed =>
    obtain ⟨s'', chain', hrun', hvalid, -, hcontents⟩ := h.delete key
    rw [hrun] at hrun'
    cases hrun'
    refine ⟨rfl, chain', hvalid, funext fun key' => ?_⟩
    rw [hcontents, contentsStep, Function.update_apply]
  | collect hrun =>
    next marked =>
    obtain ⟨s'', chain', hrun', hvalid, -, -, -, hcontents⟩ := h.collect marked
    rw [hrun] at hrun'
    cases hrun'
    exact ⟨trivial, chain', hvalid, funext hcontents⟩

omit [DecidableEq K] [Inhabited V] in
/-- A new table, in any memory. -/
lemma ephemeronTableCreate_valid (entries : EntryRef → EphemeronEntry K V) :
    Ephemerons.Valid address ⟨ephemeronTableCreate, entries⟩ [] := by
  constructor
  case tail => rfl
  case toLinked =>
    constructor
    case forward => rfl
    case back => trivial
    case nodup => exact nodup_nil
    case live => rfl
    case index => exact .nil
    case indexed => simp [ephemeronTableCreate, slotAt]
    case used => rfl
    case capacity => exact .inl rfl
    case room => exact Nat.zero_le _

/-- Every table that operations and collections lead to is well formed, holds what the last
`set` of each key stored, and answered every operation accordingly. -/
theorem ephemeronRun_correct {entries : EntryRef → EphemeronEntry K V}
    {events : List (EphemeronEvent K V)}
    (h : Steps (EphemeronStep address) ⟨ephemeronTableCreate, entries⟩ events s) :
    (∃ chain, s.Correct address (contentsAfter events) chain) ∧
      ∀ past event rest, events = past ++ event :: rest → Answers (contentsAfter past) event := by
  have hinv := @Steps.invariant_each _ _ _ _ _ _
    (fun past s => ∃ chain, Ephemerons.Valid address s chain ∧ s.contents chain = contentsAfter past)
    (fun past event => Answers (contentsAfter past) event) h
    ⟨[], ephemeronTableCreate_valid entries, rfl⟩ (by
      intro past s event s' ⟨chain, hvalid, hcontents⟩ hstep
      obtain ⟨hanswers, chain', hvalid', hcontents'⟩ := EphemeronStep.valid hvalid hstep
      rw [hcontents] at hanswers hcontents'
      refine ⟨hanswers, chain', hvalid', ?_⟩
      unfold contentsAfter at hcontents' ⊢
      rw [foldl_concat]
      exact hcontents')
  obtain ⟨⟨chain, hvalid, hcontents⟩, hanswers⟩ := hinv
  exact ⟨⟨chain, hcontents ▸ hvalid.correct⟩, hanswers⟩

/-- A run that stores one key, reads it and collects it. -/
theorem ephemeronRun_correct_collected : ∃ s : Ephemerons ℕ ℕ,
    (∃ chain, s.Correct (fun _ => 0) (contentsAfter
      [.set 5 7 ⟨true, none⟩, .get 5 (some 7), .collect fun _ => false]) chain) ∧
      Answers (contentsAfter [.set 5 7 ⟨true, none⟩]) (.get 5 (some 7)) := by
  have hfresh : SetFresh (fun _ : ℕ => 0)
      (⟨ephemeronTableCreate, fun _ => ⟨false, none, none, none, 0⟩⟩ : Ephemerons ℕ ℕ) 0
      ⟨true, none, true, true⟩ := by
    intro s₁ s₂ h₁ h₂ slot
    cases h₁
    cases h₂
    show slotAt (replicate 8 Slot.empty) slot ≠ _
    rw [slotAt_replicate]
    simp
  have hset := @EphemeronStep.set ℕ ℕ _ _ _ _ _ 5 7 _ _ _ hfresh rfl
  have hrun := ((Steps.single hset).snoc (EphemeronStep.get 5)).snoc
    (@EphemeronStep.collect ℕ ℕ _ _ _ _ _ (fun _ => false) rfl)
  obtain ⟨hcorrect, hanswers⟩ := ephemeronRun_correct hrun
  exact ⟨_, hcorrect, hanswers [_] _ [_] rfl⟩

end Oseo.RuntimeMemory
