import Mathlib.Data.List.Perm.Lattice
import Oseo.RegExpMatcher.PatternLayout

/-!
# The strings of a class and their trie

The code of a class value tries the strings that match from a position in descending length, then
its characters, then the empty string. The trie shares the beginnings of strings (their ends, when
the matcher goes backward), and the strings of one beginning come before that beginning.
-/

namespace Oseo.RegExpMatcher

open List

variable {builder : Builder} {span : Span} {reader : Reader} {backward : Bool}
  {set : ℕ → MatcherSet} {string other : List ℕ} {character index : ℕ}

/-! ## Strings from a position -/

/-- The end of a string, read in the direction of the matcher, from a position. A character is
matched by a set. -/
def stringEnd (reader : Reader) (backward : Bool) (set : ℕ → MatcherSet) :
    (string : List ℕ) → (index : ℕ) → Option ℕ
  | [], index => some index
  | character :: string, index =>
    (consumeAt reader.text reader.unicodeMode backward (set character) index).bind
      (stringEnd reader backward set string)

/-- A string in the direction of the matcher. -/
def directed (backward : Bool) (string : List ℕ) : List ℕ :=
  if backward then string.reverse else string

/-- Whether a string matches from a position. -/
def stringMatches (reader : Reader) (backward : Bool) (set : ℕ → MatcherSet) (index : ℕ)
    (string : List ℕ) : Bool :=
  (stringEnd reader backward set string index).isSome

/-- The characters of some strings are told apart by their sets. -/
def Separated (set : ℕ → MatcherSet) (strings : List (List ℕ)) : Prop :=
  ∀ first ∈ strings, ∀ second ∈ strings, ∀ c ∈ first, ∀ d ∈ second, ∀ x,
    setHas (set c) x = true → setHas (set d) x = true → c = d

/-- The two sets have the character that is read. -/
lemma consumeAt_both {first second : MatcherSet} {text : List CodeUnit} {unicodeMode : Bool}
    {after after' : ℕ} (hfirst : consumeAt text unicodeMode backward first index = some after)
    (hsecond : consumeAt text unicodeMode backward second index = some after') :
    after = after' ∧ ∃ x, setHas first x = true ∧ setHas second x = true := by
  unfold consumeAt at hfirst hsecond
  cases backward
  all_goals
    simp only [if_true, if_false, Bool.false_eq_true] at hfirst hsecond
    split at hfirst
    · cases hfirst
    · next hinside =>
      rw [if_neg hinside] at hsecond
      split at hfirst
      · next hfirstHas =>
        split at hsecond
        · next hsecondHas =>
          cases hfirst
          cases hsecond
          refine ⟨rfl, ?_⟩
          obtain ⟨x, hx, hhas⟩ := (Option.any_eq_true _ _).mp hfirstHas
          obtain ⟨y, hy, hhas'⟩ := (Option.any_eq_true _ _).mp hsecondHas
          rw [hx] at hy
          cases hy
          exact ⟨x, hhas, hhas'⟩
        · cases hsecond
      · cases hfirst

lemma stringMatches_cons :
    stringMatches reader backward set index (character :: string) = true ↔
      ∃ after, consumeAt reader.text reader.unicodeMode backward (set character) index =
        some after ∧ stringMatches reader backward set after string = true := by
  unfold stringMatches
  rw [stringEnd, Option.isSome_bind]
  cases consumeAt reader.text reader.unicodeMode backward (set character) index with
  | none => simp
  | some after => simp

/-! ## The strings of a trie -/

mutual

/-- The strings of a trie: those of each child, then the end of its own. -/
def ClassStringTrie.paths : ClassStringTrie → List (List ℕ)
  | .node terminal children => childPaths children ++ if terminal then [[]] else []

def childPaths : List (ℕ × ClassStringTrie) → List (List ℕ)
  | [] => []
  | (character, child) :: children =>
    child.paths.map (character :: ·) ++ childPaths children

end

mutual

/-- The children of a node are told apart by their characters, and none of them is empty. -/
def ClassStringTrie.Keyed : ClassStringTrie → Prop
  | .node _ children => (children.map Prod.fst).Nodup ∧ ChildrenKeyed children

def ChildrenKeyed : List (ℕ × ClassStringTrie) → Prop
  | [] => True
  | (_, child) :: children => child.Keyed ∧ child.paths ≠ [] ∧ ChildrenKeyed children

end

section Trie

variable {trie child : ClassStringTrie} {children : List (ℕ × ClassStringTrie)} {terminal : Bool}

lemma mem_childPaths : string ∈ childPaths children ↔
    ∃ entry ∈ children, ∃ rest ∈ entry.2.paths, string = entry.1 :: rest := by
  induction children with
  | nil => simp [childPaths]
  | cons entry children ih =>
    obtain ⟨c, child⟩ := entry
    rw [childPaths, mem_append, ih, mem_map]
    simp [eq_comm]

lemma mem_paths : string ∈ (ClassStringTrie.node terminal children).paths ↔
    string ∈ childPaths children ∨ terminal = true ∧ string = [] := by
  rw [ClassStringTrie.paths, mem_append]
  cases terminal <;> simp

lemma childrenKeyed_iff : ChildrenKeyed children ↔
    ∀ entry ∈ children, entry.2.Keyed ∧ entry.2.paths ≠ [] := by
  induction children with
  | nil => simp [ChildrenKeyed]
  | cons entry children ih =>
    obtain ⟨c, child⟩ := entry
    rw [ChildrenKeyed, ih, forall_mem_cons, and_assoc]

/-- The keys of the other children are other characters. -/
lemma keys_ne {entry other : ℕ × ClassStringTrie}
    (hkeys : ((entry :: children).map Prod.fst).Nodup) (hother : other ∈ children) :
    entry.1 ≠ other.1 := by
  rw [map_cons, nodup_cons] at hkeys
  intro heq
  exact hkeys.1 (heq ▸ mem_map_of_mem hother)

mutual

/-- A trie has each of its strings once. -/
lemma ClassStringTrie.paths_nodup : ∀ {trie : ClassStringTrie}, trie.Keyed → trie.paths.Nodup
  | .node terminal children, hkeyed => by
    rw [ClassStringTrie.paths, nodup_append]
    refine ⟨childPaths_nodup hkeyed.1 hkeyed.2, by cases terminal <;> simp, ?_⟩
    intro string hstring last hlast
    obtain ⟨entry, -, rest, -, rfl⟩ := mem_childPaths.mp hstring
    cases terminal with
    | true =>
      rw [mem_singleton.mp hlast]
      exact cons_ne_nil _ _
    | false => cases hlast

lemma childPaths_nodup : ∀ {children : List (ℕ × ClassStringTrie)},
    (children.map Prod.fst).Nodup → ChildrenKeyed children → (childPaths children).Nodup
  | [], _, _ => nodup_nil
  | (character, child) :: children, hkeys, hkeyed => by
    rw [childPaths, nodup_append]
    refine ⟨?_, ?_, ?_⟩
    · exact (ClassStringTrie.paths_nodup hkeyed.1).map fun _ _ heq => tail_eq_of_cons_eq heq
    · exact childPaths_nodup (nodup_cons.mp hkeys).2 hkeyed.2.2
    · intro string hstring other hother
      obtain ⟨rest, -, rfl⟩ := mem_map.mp hstring
      obtain ⟨entry, hentry, rest', -, rfl⟩ := mem_childPaths.mp hother
      intro heq
      exact keys_ne hkeys hentry (head_eq_of_cons_eq heq)

end

lemma ClassStringTrie.empty_paths : ClassStringTrie.empty.paths = [] := rfl

lemma ClassStringTrie.empty_keyed : ClassStringTrie.empty.Keyed := ⟨nodup_nil, trivial⟩

lemma ne_nil_and_mem_iff {strings : List (List ℕ)} {p : List ℕ → Prop} (hp : p string)
    (h : ∀ other, other ∈ strings ↔ p other) :
    strings ≠ [] ∧ ∀ other, other ∈ strings ↔ p other :=
  ⟨ne_nil_of_mem ((h string).mpr hp), h⟩

/-- A string added to a trie. -/
lemma ClassStringTrie.add_paths (hkeyed : trie.Keyed) (string : List ℕ) :
    (trie.add string).Keyed ∧ (trie.add string).paths ≠ [] ∧
      ∀ other, other ∈ (trie.add string).paths ↔ other = string ∨ other ∈ trie.paths := by
  induction string generalizing trie with
  | nil =>
    obtain ⟨terminal, children⟩ := trie
    refine ⟨hkeyed, ne_nil_and_mem_iff (.inl rfl) fun other => ?_⟩
    rw [ClassStringTrie.add, mem_paths, mem_paths]
    tauto
  | cons c string ih =>
    obtain ⟨terminal, children⟩ := trie
    have hchildren := childrenKeyed_iff.mp hkeyed.2
    rw [ClassStringTrie.add]
    split
    · next hany =>
      -- The child of the character takes the rest of the string.
      set added := children.map fun child =>
        if child.1 = c then (c, child.2.add string) else child with hadded
      have hkeys : added.map Prod.fst = children.map Prod.fst := by
        rw [hadded, map_map]
        refine map_congr_left fun entry _ => ?_
        by_cases hc : entry.1 = c
        · simp [hc]
        · simp [hc]
      obtain ⟨found, hfound, hkey⟩ := any_eq_true.mp hany
      rw [decide_eq_true_eq] at hkey
      refine ⟨⟨hkeys ▸ hkeyed.1, childrenKeyed_iff.mpr fun entry hmem => ?_⟩, ?_⟩
      · obtain ⟨child, hchild, rfl⟩ := mem_map.mp hmem
        split
        · exact ⟨(ih (hchildren child hchild).1).1, (ih (hchildren child hchild).1).2.1⟩
        · exact hchildren child hchild
      · refine ne_nil_and_mem_iff (.inl rfl) fun other => ?_
        rw [mem_paths, mem_paths, ← or_assoc]
        refine or_congr_left ?_
        rw [mem_childPaths, mem_childPaths]
        constructor
        · rintro ⟨entry, hmem, rest, hrest, rfl⟩
          obtain ⟨child, hchild, rfl⟩ := mem_map.mp hmem
          split at hrest
          · next hc =>
            rw [if_pos hc]
            rcases ((ih (hchildren child hchild).1).2.2 rest).mp hrest with rfl | hrest
            · exact .inl rfl
            · exact .inr ⟨child, hchild, rest, hrest, by rw [hc]⟩
          · next hc =>
            rw [if_neg hc]
            exact .inr ⟨child, hchild, rest, hrest, rfl⟩
        · rintro (rfl | ⟨child, hchild, rest, hrest, rfl⟩)
          · refine ⟨_, mem_map_of_mem hfound, string, ?_, ?_⟩
            · rw [if_pos hkey]
              exact ((ih (hchildren found hfound).1).2.2 string).mpr (.inl rfl)
            · rw [if_pos hkey]
          · refine ⟨_, mem_map_of_mem hchild, rest, ?_, ?_⟩
            · split
              · exact ((ih (hchildren child hchild).1).2.2 rest).mpr (.inr hrest)
              · exact hrest
            · split
              · next hc => rw [hc]
              · rfl
    · next hnone =>
      -- A new child.
      have hnew := ih ClassStringTrie.empty_keyed
      have hkey : c ∉ children.map Prod.fst := by
        intro hmem
        obtain ⟨entry, hentry, rfl⟩ := mem_map.mp hmem
        exact hnone (any_eq_true.mpr ⟨entry, hentry, by simp⟩)
      refine ⟨⟨?_, childrenKeyed_iff.mpr fun entry hmem => ?_⟩, ?_⟩
      · rw [map_append, nodup_append]
        refine ⟨hkeyed.1, by simp, fun key hmem last hlast => ?_⟩
        rw [mem_singleton.mp hlast]
        rintro rfl
        exact hkey hmem
      · rcases mem_append.mp hmem with hmem | hmem
        · exact hchildren entry hmem
        · rw [mem_singleton.mp hmem]
          exact ⟨hnew.1, hnew.2.1⟩
      · refine ne_nil_and_mem_iff (.inl rfl) fun other => ?_
        rw [mem_paths, mem_paths, ← or_assoc]
        refine or_congr_left ?_
        rw [mem_childPaths, mem_childPaths]
        constructor
        · rintro ⟨entry, hmem, rest, hrest, rfl⟩
          rcases mem_append.mp hmem with hmem | hmem
          · exact .inr ⟨entry, hmem, rest, hrest, rfl⟩
          · rw [mem_singleton.mp hmem] at hrest ⊢
            rcases (hnew.2.2 rest).mp hrest with rfl | hrest
            · exact .inl rfl
            · cases hrest
        · rintro (rfl | ⟨entry, hmem, rest, hrest, rfl⟩)
          · exact ⟨_, mem_append_right _ mem_cons_self, string,
              (hnew.2.2 string).mpr (.inl rfl), rfl⟩
          · exact ⟨entry, mem_append_left _ hmem, rest, hrest, rfl⟩

end Trie

/-- The trie of some strings has exactly these, in the direction of the matcher. -/
lemma classStringTrie_paths (strings : List (List ℕ)) (backward : Bool) :
    (classStringTrie strings backward).Keyed ∧
      ∀ other, other ∈ (classStringTrie strings backward).paths ↔
        ∃ string ∈ strings, other = directed backward string := by
  have hfold : ∀ (strings : List (List ℕ)) {trie : ClassStringTrie}, trie.Keyed →
      (strings.foldl (fun root source =>
          root.add (if backward then source.reverse else source)) trie).Keyed ∧
        ∀ other, other ∈ (strings.foldl (fun root source =>
            root.add (if backward then source.reverse else source)) trie).paths ↔
          (∃ string ∈ strings, other = directed backward string) ∨ other ∈ trie.paths := by
    intro strings
    induction strings with
    | nil => exact fun hkeyed => ⟨hkeyed, fun other => by simp⟩
    | cons string strings ih =>
      intro trie hkeyed
      obtain ⟨hadded, -, hmem⟩ :=
        ClassStringTrie.add_paths hkeyed (directed backward string)
      obtain ⟨hrest, hrestMem⟩ := ih hadded
      refine ⟨hrest, fun other => ?_⟩
      refine (hrestMem other).trans ?_
      rw [hmem, exists_mem_cons_iff, ← or_assoc]
      exact or_congr_left or_comm
  obtain ⟨hkeyed, hmem⟩ := hfold (strings.insertionSort fun first second =>
    second.length ≤ first.length) ClassStringTrie.empty_keyed
  refine ⟨hkeyed, fun other => (hmem other).trans ?_⟩
  rw [ClassStringTrie.empty_paths]
  simp only [mem_insertionSort, not_mem_nil, or_false]

/-! ## The order of the trie -/

/-- One string is longer than the next. -/
def Descending (first second : List ℕ) : Prop := second.length < first.length

mutual

/-- Of the strings of a trie that match from a position, the longer ones come first. -/
lemma paths_descending : ∀ {trie : ClassStringTrie} {index : ℕ}, trie.Keyed →
    Separated set trie.paths →
    (trie.paths.filter (stringMatches reader backward set index)).Pairwise Descending
  | .node terminal children, index, hkeyed, hseparated => by
    have hchildren : Separated set (childPaths children) := fun first hfirst second hsecond =>
      hseparated first (mem_paths.mpr (.inl hfirst)) second (mem_paths.mpr (.inl hsecond))
    rw [ClassStringTrie.paths, filter_append, pairwise_append]
    refine ⟨childPaths_descending hkeyed.1 hkeyed.2 hchildren, ?_, ?_⟩
    · cases terminal with
      | true => exact (pairwise_singleton _ _).filter _
      | false => exact .nil
    · intro string hstring last hlast
      have hlast' := mem_of_mem_filter hlast
      obtain ⟨entry, -, rest, -, rfl⟩ := mem_childPaths.mp (mem_of_mem_filter hstring)
      cases terminal with
      | true =>
        rw [mem_singleton.mp hlast']
        exact Nat.succ_pos _
      | false => cases hlast'

lemma childPaths_descending : ∀ {children : List (ℕ × ClassStringTrie)} {index : ℕ},
    (children.map Prod.fst).Nodup → ChildrenKeyed children →
    Separated set (childPaths children) →
    ((childPaths children).filter (stringMatches reader backward set index)).Pairwise Descending
  | [], _, _, _, _ => .nil
  | (character, child) :: children, index, hkeys, hkeyed, hseparated => by
    have hhere : ∀ {rest}, rest ∈ child.paths →
        character :: rest ∈ childPaths ((character, child) :: children) := fun hrest =>
      mem_childPaths.mpr ⟨_, mem_cons_self, _, hrest, rfl⟩
    have hthere : ∀ {string}, string ∈ childPaths children →
        string ∈ childPaths ((character, child) :: children) := fun hstring => by
      obtain ⟨entry, hentry, rest, hrest, rfl⟩ := mem_childPaths.mp hstring
      exact mem_childPaths.mpr ⟨entry, mem_cons_of_mem _ hentry, rest, hrest, rfl⟩
    rw [childPaths, filter_append, pairwise_append]
    refine ⟨?_, ?_, ?_⟩
    · -- Within a child, all strings go on from one position.
      rw [filter_map, pairwise_map]
      cases hconsume : consumeAt reader.text reader.unicodeMode backward (set character) index with
      | none =>
        rw [filter_eq_nil_iff.mpr]
        · exact .nil
        · intro rest _ hmatches
          obtain ⟨after, hafter, -⟩ := stringMatches_cons.mp hmatches
          rw [hconsume] at hafter
          cases hafter
      | some after =>
        have hsame : (stringMatches reader backward set index ∘ (character :: ·)) =
            stringMatches reader backward set after := by
          funext rest
          show (stringEnd reader backward set (character :: rest) index).isSome = _
          rw [stringEnd, hconsume]
          rfl
        rw [hsame]
        refine (paths_descending hkeyed.1 fun first hfirst second hsecond c hc d hd =>
          hseparated _ (hhere hfirst) _ (hhere hsecond) c (mem_cons_of_mem _ hc) d
            (mem_cons_of_mem _ hd)).imp fun hlt => ?_
        exact Nat.succ_lt_succ hlt
    · exact childPaths_descending (nodup_cons.mp hkeys).2 hkeyed.2.2
        fun first hfirst second hsecond => hseparated _ (hthere hfirst) _ (hthere hsecond)
    · -- Two children do not match the same character.
      intro string hstring other hother
      exfalso
      obtain ⟨hstring, hmatches⟩ := mem_filter.mp hstring
      obtain ⟨hother, hmatches'⟩ := mem_filter.mp hother
      obtain ⟨rest, hrest, rfl⟩ := mem_map.mp hstring
      obtain ⟨entry, hentry, rest', hrest', rfl⟩ := mem_childPaths.mp hother
      obtain ⟨after, hconsume, -⟩ := stringMatches_cons.mp hmatches
      obtain ⟨after', hconsume', -⟩ := stringMatches_cons.mp hmatches'
      obtain ⟨-, x, hx, hx'⟩ := consumeAt_both hconsume hconsume'
      exact keys_ne hkeys hentry (hseparated _ (hhere hrest) _
        (hthere (mem_childPaths.mpr ⟨entry, hentry, rest', hrest', rfl⟩)) character (by simp)
        entry.1 (by simp) x hx hx')

end

/-- Longer strings first: there is one such order of the strings that match. -/
lemma descending_unique {first second : List (List ℕ)} (hperm : first.Perm second)
    (hfirst : first.Pairwise Descending)
    (hsecond : second.Pairwise fun longer shorter => shorter.length ≤ longer.length) :
    first = second := by
  refine hperm.eq_of_pairwise (fun a b ha hb hab hba => ?_)
    (hfirst.imp fun h => Nat.le_of_lt h) hsecond
  -- Strings of one length are one string.
  have hdistinct : ∀ {strings : List (List ℕ)}, strings.Pairwise Descending → ∀ s ∈ strings,
      ∀ t ∈ strings, s.length = t.length → s = t := by
    intro strings hstrings
    induction hstrings with
    | nil => simp
    | cons hhead _ ih =>
      intro s hs t ht hlength
      rcases mem_cons.mp hs with rfl | hs'
      · rcases mem_cons.mp ht with rfl | ht'
        · rfl
        · have : t.length < s.length := hhead t ht'
          omega
      · rcases mem_cons.mp ht with rfl | ht'
        · have : s.length < t.length := hhead s hs'
          omega
        · exact ih s hs' t ht' hlength
  exact hdistinct hfirst a ha b (hperm.mem_iff.mpr hb) (Nat.le_antisymm hba hab)

lemma filterMap_matches (strings : List (List ℕ)) :
    strings.filterMap (fun string => stringEnd reader backward set string index) =
      (strings.filter (stringMatches reader backward set index)).filterMap
        fun string => stringEnd reader backward set string index := by
  induction strings with
  | nil => rfl
  | cons string strings ih =>
    rw [filter_cons, filterMap_cons, ih]
    cases hend : stringEnd reader backward set string index with
    | none => rw [if_neg (by simp [stringMatches, hend])]
    | some after => rw [if_pos (by simp [stringMatches, hend]), filterMap_cons, hend]

lemma directed_length (backward : Bool) (string : List ℕ) :
    (directed backward string).length = string.length := by
  cases backward with
  | true => exact length_reverse
  | false => rfl

lemma directed_injective (backward : Bool) : Function.Injective (directed backward) := by
  cases backward with
  | true => exact reverse_injective
  | false => exact Function.injective_id

lemma mem_directed {backward : Bool} {string : List ℕ} {c : ℕ} :
    c ∈ directed backward string ↔ c ∈ string := by
  cases backward with
  | true => exact mem_reverse
  | false => exact .rfl

/-- The trie tries the strings that match in descending length. -/
lemma trie_order {strings ordered : List (List ℕ)} (hnodup : strings.Nodup)
    (hseparated : Separated set strings) (hperm : ordered.Perm strings)
    (hordered : ordered.Pairwise fun longer shorter => shorter.length ≤ longer.length)
    (index : ℕ) :
    (classStringTrie strings backward).paths.filterMap
        (fun string => stringEnd reader backward set string index) =
      ordered.filterMap
        fun string => stringEnd reader backward set (directed backward string) index := by
  obtain ⟨hkeyed, hmem⟩ := classStringTrie_paths strings backward
  have hpaths : (classStringTrie strings backward).paths.Perm (ordered.map (directed backward)) := by
    refine (perm_ext_iff_of_nodup (ClassStringTrie.paths_nodup hkeyed)
      ((hperm.nodup_iff.mpr hnodup).map (directed_injective backward))).mpr fun other => ?_
    rw [hmem, mem_map]
    constructor
    · rintro ⟨string, hstring, rfl⟩
      exact ⟨string, hperm.mem_iff.mpr hstring, rfl⟩
    · rintro ⟨string, hstring, rfl⟩
      exact ⟨string, hperm.mem_iff.mp hstring, rfl⟩
  have hpathsSeparated : Separated set (classStringTrie strings backward).paths := by
    intro first hfirst second hsecond c hc d hd
    obtain ⟨string, hstring, rfl⟩ := (hmem first).mp hfirst
    obtain ⟨string', hstring', rfl⟩ := (hmem second).mp hsecond
    exact hseparated string hstring string' hstring' c (mem_directed.mp hc) d (mem_directed.mp hd)
  have hsame := descending_unique
    (hpaths.filter (stringMatches reader backward set index))
    (paths_descending hkeyed hpathsSeparated)
    (.filter _ (pairwise_map.mpr (hordered.imp fun h => by
      rwa [directed_length, directed_length])))
  rw [filterMap_matches, hsame, ← filterMap_matches, filterMap_map]
  rfl

end Oseo.RegExpMatcher
