import Oseo.RegExpMatcher.ClassStrings
import Oseo.RegExpMatcher.ProgramRuns

/-!
# What a class value tries

`classValueEnds` is the string-class matcher of the edition: the strings of the class in descending
length, its characters, the empty string. The instructions of a class value try these ends, one
after the other, and then go back to what there was to try before (`buildClassValue_tries`).
-/

namespace Oseo.RegExpMatcher

open List hiding set
open Oseo.Library

variable {builder builder' : Builder} {span : Span} {reader : Reader} {backward : Bool}
  {value : ClassValue} {place : Place} {index : ℕ} {code : Code}

/-! ## The matcher of the edition -/

/-- A set closed under the canonicalization of a builder. -/
def closedSet (builder : Builder) (span : Span) (set : MatcherSet) : MatcherSet :=
  match closeSet builder set span with
  | .ok closed => closed
  | .error _ => set

/-- The set one character of a string is matched by. -/
def characterSet (builder : Builder) (span : Span) (character : ℕ) : MatcherSet :=
  closedSet builder span (setOfRange character character)

/-- The ends of the alternatives that match from a position: the strings in an order, the
characters, the empty string. -/
def classValueEnds (builder : Builder) (span : Span) (reader : Reader) (backward : Bool)
    (value : ClassValue) (ordered : List (List ℕ)) (index : ℕ) : List ℕ :=
  ordered.filterMap (fun string =>
      stringEnd reader backward (characterSet builder span) (directed backward string) index) ++
    (consumeAt reader.text reader.unicodeMode backward (closedSet builder span value.characters)
      index).toList ++
    if [] ∈ value.strings then [index] else []

/-- The nonempty strings of a value in descending length. -/
structure InDescendingLength (value : ClassValue) (ordered : List (List ℕ)) : Prop where
  perm : ordered.Perm (value.strings.filter fun string => !string.isEmpty)
  descending : ordered.Pairwise fun longer shorter => shorter.length ≤ longer.length

/-! ## The results of the code -/

/-- The place moved to each of some positions. -/
def Place.movedToEach (place : Place) (ends : List ℕ) : List Place :=
  ends.map fun index => { place with index }

lemma Place.movedToEach_append (place : Place) (first second : List ℕ) :
    place.movedToEach (first ++ second) = place.movedToEach first ++ place.movedToEach second :=
  map_append

lemma Place.movedTo_eq (place : Place) (after : Option ℕ) :
    place.movedTo after = place.movedToEach after.toList := by
  cases after <;> rfl

lemma classCharactersCode_eq {set : MatcherSet}
    (h : classCharactersCode builder set span = .ok code) :
    code = .consume (closedSet builder span set) := by
  obtain ⟨closed, hclosed, h⟩ := build_bind_eq_ok h
  cases h
  rw [closedSet, hclosed]

lemma classCharactersCode_results {set : MatcherSet}
    (h : classCharactersCode builder set span = .ok code) :
    code.results reader backward place = place.movedToEach
      (consumeAt reader.text reader.unicodeMode backward (closedSet builder span set)
        place.index).toList := by
  rw [classCharactersCode_eq h, Code.results, Place.movedTo_eq]

/-- The ends of the strings of a trie from a position. -/
def pathEnds (builder : Builder) (span : Span) (reader : Reader) (backward : Bool)
    (paths : List (List ℕ)) (index : ℕ) : List ℕ :=
  paths.filterMap fun string =>
    stringEnd reader backward (characterSet builder span) string index

lemma pathEnds_append (first second : List (List ℕ)) :
    pathEnds builder span reader backward (first ++ second) index =
      pathEnds builder span reader backward first index ++
        pathEnds builder span reader backward second index :=
  filterMap_append

/-- The strings with one first character go on behind it. -/
lemma pathEnds_cons (character : ℕ) (paths : List (List ℕ)) :
    pathEnds builder span reader backward (paths.map (character :: ·)) index =
      (consumeAt reader.text reader.unicodeMode backward (characterSet builder span character)
        index).toList.flatMap (pathEnds builder span reader backward paths) := by
  unfold pathEnds
  rw [filterMap_map]
  cases hconsume : consumeAt reader.text reader.unicodeMode backward
      (characterSet builder span character) index with
  | none =>
    rw [Option.toList_none, flatMap_nil, filterMap_eq_nil_iff]
    intro string _
    show stringEnd reader backward _ (character :: string) index = none
    rw [stringEnd, hconsume]
    rfl
  | some after =>
    rw [Option.toList_some, flatMap_singleton]
    congr 1
    funext string
    show stringEnd reader backward _ (character :: string) index = _
    rw [stringEnd, hconsume]
    rfl

/-- The results of the code of a branch that consumes a character and goes on in its child. -/
lemma branch_results {character : ℕ} {paths : List (List ℕ)} {consume rest : Code}
    (hconsume : classCharactersCode builder (setOfRange character character) span = .ok consume)
    (hrest : ∀ place : Place, rest.results reader backward place =
      place.movedToEach (pathEnds builder span reader backward paths place.index)) :
    (Code.sequence consume rest).results reader backward place = place.movedToEach
      (pathEnds builder span reader backward (paths.map (character :: ·)) place.index) := by
  rw [Code.results, classCharactersCode_results hconsume, pathEnds_cons]
  show flatMap _ (place.movedToEach (consumeAt reader.text reader.unicodeMode backward
    (characterSet builder span character) place.index).toList) = _
  cases consumeAt reader.text reader.unicodeMode backward (characterSet builder span character)
      place.index with
  | none => rfl
  | some after =>
    show flatMap _ [_] = _
    rw [flatMap_singleton, hrest, Option.toList_some, flatMap_singleton]
    rfl

mutual

/-- The code of a trie matches up to the ends of its strings. -/
lemma trieCode_results : ∀ {trie : ClassStringTrie} {code : Code}, trie.Keyed →
    trie.paths ≠ [] → trieCode builder span trie = .ok code → ∀ place : Place,
    code.results reader backward place =
      place.movedToEach (pathEnds builder span reader backward trie.paths place.index)
  | .node terminal children, code, hkeyed, hpaths, hcode, place => by
    have hsome : children ≠ [] ∨ terminal = true := by
      by_contra hnone
      rw [not_or, not_not, Bool.not_eq_true] at hnone
      apply hpaths
      rw [hnone.1, hnone.2]
      rfl
    rw [trieCode, if_neg] at hcode
    · exact childrenCode_results hkeyed.2 hsome hcode place
    · rcases hsome with hchildren | hterminal
      · cases children with
        | nil => exact absurd rfl hchildren
        | cons => simp
      · simp [hterminal]

lemma childrenCode_results : ∀ {children : List (ℕ × ClassStringTrie)} {terminal : Bool}
    {code : Code}, ChildrenKeyed children → children ≠ [] ∨ terminal = true →
    childrenCode builder span terminal children = .ok code → ∀ place : Place,
    code.results reader backward place =
      place.movedToEach (pathEnds builder span reader backward
        (childPaths children ++ if terminal then [[]] else []) place.index)
  | [], terminal, code, _, hsome, hcode, place => by
    cases hcode
    have hterminal : terminal = true := hsome.resolve_left (absurd rfl)
    rw [hterminal]
    rfl
  | (character, child) :: children, terminal, code, hkeyed, _, hcode, place => by
    rw [childrenCode] at hcode
    obtain ⟨consume, hconsume, hcode⟩ := build_bind_eq_ok hcode
    obtain ⟨rest, hrest, hcode⟩ := build_bind_eq_ok hcode
    have hbranch : ∀ place : Place, (Code.sequence consume rest).results reader backward place =
        place.movedToEach (pathEnds builder span reader backward
          (child.paths.map (character :: ·)) place.index) := fun _ =>
      branch_results hconsume (trieCode_results hkeyed.1 hkeyed.2.1 hrest)
    rw [childPaths, append_assoc, pathEnds_append, Place.movedToEach_append]
    split at hcode
    · next hlast =>
      -- The only branch left is the last one.
      cases hcode
      rw [Bool.and_eq_true, List.isEmpty_iff, Bool.not_eq_true'] at hlast
      rw [hbranch, hlast.1, hlast.2]
      exact (List.append_nil _).symm
    · next hmore =>
      obtain ⟨others, hothers, hcode⟩ := build_bind_eq_ok hcode
      cases hcode
      have hsome : children ≠ [] ∨ terminal = true := by
        by_contra hnone
        rw [not_or, not_not, Bool.not_eq_true] at hnone
        apply hmore
        rw [hnone.1, hnone.2]
        rfl
      rw [Code.results, hbranch, childrenCode_results hkeyed.2.2 hsome hothers]

end

/-- The ends a branch of a class value tries. -/
def branchEnds (builder : Builder) (span : Span) (reader : Reader) (backward : Bool)
    (index : ℕ) : ClassBranch → List ℕ
  | .strings trie => pathEnds builder span reader backward trie.paths index
  | .characters set => (consumeAt reader.text reader.unicodeMode backward
      (closedSet builder span set) index).toList
  | .empty => [index]

/-- A branch for strings has some. -/
def ClassBranch.Keyed : ClassBranch → Prop
  | .strings trie => trie.Keyed ∧ trie.paths ≠ []
  | _ => True

lemma classBranchCode_results {branch : ClassBranch} (hkeyed : branch.Keyed)
    (h : classBranchCode builder span branch = .ok code) :
    code.results reader backward place =
      place.movedToEach (branchEnds builder span reader backward place.index branch) := by
  cases branch with
  | strings trie => exact trieCode_results hkeyed.1 hkeyed.2 h place
  | characters set => exact classCharactersCode_results h
  | empty =>
    cases h
    rfl

lemma classBranchesCode_results {branches : List ClassBranch} (hbranches : branches ≠ [])
    (hkeyed : ∀ branch ∈ branches, branch.Keyed)
    (h : classBranchesCode builder span branches = .ok code) :
    code.results reader backward place = place.movedToEach
      (branches.flatMap (branchEnds builder span reader backward place.index)) := by
  induction branches generalizing code with
  | nil => exact absurd rfl hbranches
  | cons branch branches ih =>
    rw [classBranchesCode] at h
    obtain ⟨one, hone, h⟩ := build_bind_eq_ok h
    have hresults : one.results reader backward place = _ :=
      classBranchCode_results (hkeyed branch mem_cons_self) hone
    rw [flatMap_cons]
    split at h
    · next hlast =>
      cases h
      rw [isEmpty_iff.mp hlast, hresults, flatMap_nil, append_nil]
    · next hmore =>
      obtain ⟨others, hothers, h⟩ := build_bind_eq_ok h
      cases h
      rw [Place.movedToEach_append, ← hresults, ← ih (fun hnil => hmore (by rw [hnil]; rfl))
        (fun other hother => hkeyed other (mem_cons_of_mem _ hother)) hothers]
      rfl

/-- No character is in the closed empty set. -/
lemma closedSet_nil : closedSet builder span [] = [] := by
  unfold closedSet closeSet
  split
  · next closed hclosed =>
    split at hclosed
    · cases hclosed
      rfl
    · obtain ⟨classes, -, hclosed⟩ := build_bind_eq_ok hclosed
      have hadded : addedMembers classes [] = [] := by
        unfold addedMembers
        rw [flatMap_eq_nil_iff]
        intro members _
        rw [if_neg]
        rw [any_eq_true]
        rintro ⟨member, -, hmember⟩
        cases hmember
      cases hclosed
      rw [hadded]
      rfl
  · rfl

lemma consumeAt_nil : consumeAt reader.text reader.unicodeMode backward [] index = none := by
  have hnone : ∀ character : Option ℕ, character.any (setHas []) = false := by
    intro character
    cases character <;> rfl
  unfold consumeAt
  simp only [hnone, Bool.false_eq_true, if_false, ite_self]

lemma trieOf_keyed {strings : List (List ℕ)} (hstrings : strings ≠ []) :
    (ClassBranch.strings (classStringTrie strings backward)).Keyed := by
  obtain ⟨hkeyed, hmem⟩ := classStringTrie_paths strings backward
  refine ⟨hkeyed, ?_⟩
  obtain ⟨string, hstring⟩ := exists_mem_of_ne_nil strings hstrings
  exact ne_nil_of_mem ((hmem _).mpr ⟨string, hstring, rfl⟩)

section
variable {ordered : List (List ℕ)} (hnodup : value.strings.Nodup)
  (hseparated : Separated (characterSet builder span) value.strings)
  (hordered : InDescendingLength value ordered)
include hnodup hseparated hordered

/-- The branches of a class value try the ends of the edition. -/
lemma classBranches_ends :
    (classBranches value backward).flatMap (branchEnds builder span reader backward index) =
      classValueEnds builder span reader backward value ordered index := by
  have hstrings : (if (value.strings.filter fun string => !string.isEmpty).isEmpty then []
        else [ClassBranch.strings (classStringTrie
          (value.strings.filter fun string => !string.isEmpty) backward)]).flatMap
          (branchEnds builder span reader backward index) =
      ordered.filterMap fun string =>
        stringEnd reader backward (characterSet builder span) (directed backward string) index := by
    rw [← trie_order (hnodup.filter _) (fun first hfirst second hsecond =>
      hseparated first (mem_of_mem_filter hfirst) second (mem_of_mem_filter hsecond))
      hordered.perm hordered.descending]
    split
    · next hnone =>
      rw [isEmpty_iff.mp hnone]
      rfl
    · rw [flatMap_singleton]
      rfl
  have hcharacters : (if value.characters.isEmpty then []
        else [ClassBranch.characters value.characters]).flatMap
          (branchEnds builder span reader backward index) =
      (consumeAt reader.text reader.unicodeMode backward
        (closedSet builder span value.characters) index).toList := by
    split
    · next hnone =>
      rw [isEmpty_iff.mp hnone, closedSet_nil, consumeAt_nil]
      rfl
    · rw [flatMap_singleton]
      rfl
  have hempty : (if value.strings.any (·.isEmpty) then [ClassBranch.empty] else []).flatMap
        (branchEnds builder span reader backward index) =
      if [] ∈ value.strings then [index] else [] := by
    have hany : value.strings.any (·.isEmpty) = true ↔ [] ∈ value.strings := by
      rw [any_eq_true]
      constructor
      · rintro ⟨string, hstring, hnil⟩
        rwa [isEmpty_iff.mp hnil] at hstring
      · exact fun hmem => ⟨[], hmem, rfl⟩
    by_cases hmem : [] ∈ value.strings
    · rw [if_pos (hany.mpr hmem), if_pos hmem]
      rfl
    · rw [if_neg (fun h => hmem (hany.mp h)), if_neg hmem]
      rfl
  unfold classBranches classValueEnds
  rw [flatMap_append, flatMap_append, hstrings, hcharacters, hempty]

/-- The code of a class value matches up to the ends of the edition, in its order. -/
lemma classValueCode_results (h : classValueCode builder value backward span = .ok code) :
    code.results reader backward place = place.movedToEach
      (classValueEnds builder span reader backward value ordered place.index) := by
  rw [← classBranches_ends hnodup hseparated hordered]
  unfold classValueCode at h
  split at h
  · next hnone =>
    -- The empty class has no branches, and its code consumes no character.
    rw [Bool.and_eq_true, List.isEmpty_iff, List.isEmpty_iff] at hnone
    rw [classCharactersCode_results h, closedSet_nil, consumeAt_nil]
    unfold classBranches
    rw [hnone.1, hnone.2]
    rfl
  · next hsome =>
    apply classBranchesCode_results _ _ h
    · intro hnil
      unfold classBranches at hnil
      rw [append_eq_nil_iff, append_eq_nil_iff] at hnil
      obtain ⟨⟨hstrings, hcharacters⟩, hempty⟩ := hnil
      apply hsome
      rw [Bool.and_eq_true]
      refine ⟨?_, by_contra fun hnone => ?_⟩
      · rw [List.isEmpty_iff, List.eq_nil_iff_forall_not_mem]
        intro string hstring
        by_cases hlength : string.isEmpty = true
        · rw [if_pos (any_eq_true.mpr ⟨string, hstring, hlength⟩)] at hempty
          cases hempty
        · rw [if_neg] at hstrings
          · cases hstrings
          · rw [List.isEmpty_iff, List.filter_eq_nil_iff]
            exact fun hnone => hnone string hstring (by simpa using hlength)
      · rw [if_neg hnone] at hcharacters
        cases hcharacters
    · intro branch hbranch
      unfold classBranches at hbranch
      rw [mem_append, mem_append] at hbranch
      rcases hbranch with (hbranch | hbranch) | hbranch
      · split at hbranch
        · cases hbranch
        · next hstrings =>
          rw [mem_singleton.mp hbranch]
          exact trieOf_keyed fun hnil => hstrings (by rw [hnil]; rfl)
      · split at hbranch
        · cases hbranch
        · rw [mem_singleton.mp hbranch]
          trivial
      · split at hbranch
        · rw [mem_singleton.mp hbranch]
          trivial
        · cases hbranch

end

/-- Without a case rule, the characters of strings are told apart. -/
lemma separated_plain (hfold : builder.ignoreCase = false) (strings : List (List ℕ)) :
    Separated (characterSet builder span) strings := by
  have hhas : ∀ c x, setHas (characterSet builder span c) x = true → x = c := by
    intro c x hx
    have hset : characterSet builder span c = [c, c + 1] := by
      unfold characterSet closedSet closeSet setOfRange
      rw [hfold, if_neg (Nat.lt_irrefl c)]
      rfl
    rw [hset] at hx
    have hloop : setHasLoop [c, c + 1] x 2 0 2 =
        if c + 1 ≤ x then 2 else if c ≤ x then 1 else 0 := by
      simp [setHasLoop]
    unfold setHas at hx
    rw [show [c, c + 1].length = 2 from rfl, hloop] at hx
    split at hx
    · cases hx
    · split at hx
      · omega
      · cases hx
  intro first _ second _ c _ d _ x hc hd
  rw [← hhas c x hc, ← hhas d x hd]

/-! ## The executor -/

variable {limits : ExecutionLimits} {program : MatcherProgram} {text : List CodeUnit}
  {last : ℕ} {kept : List Point} {result : StepResult}

/-- What a round leaves comes to a limit. -/
def ReachesLimit (limits : ExecutionLimits) (program : MatcherProgram) (text : List CodeUnit) :
    StepResult → Prop
  | .running machine => ∃ count limit steps,
    EndsIn limits program text machine count (.limit limit steps)
  | .done execution => ∃ limit steps, execution = .limit limit steps

/-- What a round leaves takes up the choices that were kept. -/
def Resumes (limits : ExecutionLimits) (program : MatcherProgram) (text : List CodeUnit)
    (kept : List Point) : StepResult → Prop
  | .running machine => Arrives limits program text (resume kept) machine
  | .done execution => kept = [] ∧ ∃ steps, execution = .unmatched steps

/-- The executor comes to an address at some positions, one after the other, each time its latest
choice is taken up, and then takes up the choices that were kept; or it comes to a limit. -/
inductive Tries (limits : ExecutionLimits) (program : MatcherProgram) (text : List CodeUnit)
    (last : ℕ) (kept : List Point) : List ℕ → StepResult → Prop
  | limit {ends : List ℕ} {result : StepResult} (limited : limits ≠ .removed)
    (reaches : ReachesLimit limits program text result) : Tries limits program text last kept ends result
  | resume {result : StepResult} (resumes : Resumes limits program text kept result) :
    Tries limits program text last kept [] result
  | arrive {machine machine' : Machine} {ends : List ℕ} (count : ℕ)
    (loop : ∀ fuel, matchLoop limits program text (fuel + count) machine =
      matchLoop limits program text fuel machine')
    (address : machine'.address = last)
    (rest : Tries limits program text last kept ends (backtrack machine')) :
    Tries limits program text last kept (machine'.index :: ends) (.running machine)

lemma Proceeds.of_none {config : Option (Point × List Point)}
    (h : Proceeds (Move program text) none config) : config = none := by
  rcases Relation.ReflTransGen.cases_head h with heq | ⟨next, ⟨_, hsome, -⟩, -⟩
  · exact heq.symm
  · cases hsome

/-- The executor tries what a search shows. -/
lemma tries_of_enumerates {low high : ℕ} {registers : ℕ → Option ℕ} {results : List Place}
    {config : Option (Point × List Point)}
    (h : Enumerates (Move program text) (Shows 0 low high last registers) kept results config)
    (hfollows : Follows program limits config result) :
    Tries limits program text last kept (results.map Place.index) result := by
  induction h generalizing result with
  | nil hproceeds =>
    cases result with
    | running machine =>
      obtain ⟨point, choices, hconfig, hrelated⟩ := hfollows
      exact .resume (Proceeds.arrives hproceeds hconfig hrelated)
    | done execution =>
      cases execution with
      | matched => exact hfollows.elim
      | limit limit steps => exact .limit hfollows ⟨limit, steps, rfl⟩
      | unmatched steps =>
        have hnone : _ = none := hfollows
        rw [hnone] at hproceeds
        have hkept : resume kept = none := Proceeds.of_none hproceeds
        refine .resume ⟨?_, steps, rfl⟩
        cases kept with
        | nil => rfl
        | cons => cases hkept
  | @cons config place places state choices hproceeds hshows hrest ih =>
    cases result with
    | running machine =>
      obtain ⟨point, choices', hconfig, hrelated⟩ := hfollows
      rcases (Proceeds.arrives hproceeds hconfig hrelated : Arrives limits program text _ machine) with
        ⟨count, limit, steps, hlimits, hends⟩ | ⟨count, machine', hmachine, hloop⟩
      · exact .limit hlimits ⟨count, limit, steps, hends⟩
      · rw [map_cons, ← hshows.index, ← hmachine.index]
        apply Tries.arrive count hloop
        · rw [hmachine.address, hshows.address]
        · exact ih (backtrack_follows hmachine.stacked)
    | done execution =>
      cases execution with
      | matched => exact hfollows.elim
      | limit limit steps => exact .limit hfollows ⟨limit, steps, rfl⟩
      | unmatched steps =>
        have hnone : _ = none := hfollows
        rw [hnone] at hproceeds
        cases Proceeds.of_none hproceeds

/-- The instructions of a class value try the ends of its branches. -/
lemma buildClassValue_branches {final : Builder} {failAt : ℕ} {machine : Machine} {point : Point}
    (h : buildClassValue builder value backward span = .ok builder')
    (hfinished : Finished final program) (hcontinues : Continues builder builder' final failAt)
    (hregisters : builder'.registers ≤ program.registers)
    (hfail : program.instructions[failAt]? = some .fail)
    (hrelated : Related program machine point kept)
    (haddress : machine.address = builder.instructions.length)
    (hindex : machine.index ≤ text.length) :
    ∃ code, classValueCode builder value backward span = .ok code ∧
      Tries limits program text builder'.instructions.length kept
        ((code.results (program.reader text) backward ⟨machine.index, fun _ => none⟩).map
          Place.index) (.running machine) := by
  obtain ⟨code, hcode, hbuilds⟩ := buildClassValue_builds h rfl
  have hover : code.Over 0 [] := classValueCode_over hcode
  have hsearches : Searches program text 0 builder.instructions.length
      builder'.instructions.length builder.registers builder'.registers code backward :=
    code.enumerates (hbuilds.lays program final failAt hfinished hcontinues) hover.wellFormed
      (Nat.zero_le _) hregisters hfail
  have hat : At 0 builder.instructions.length ⟨machine.index, fun _ => none⟩ point := {
    address := by rw [← hrelated.address, haddress]
    index := hrelated.index.symm
    captures := fun slot hslot => absurd hslot (Nat.not_lt_zero _) }
  -- A class value reads and sets no captures, so that nothing is asked of them.
  have hsearch : Enumerates (Move program text) (Shows 0 builder.registers builder'.registers
      builder'.instructions.length point.registers) kept
      (code.results (program.reader text) backward ⟨machine.index, fun _ => none⟩)
      (some (point, kept)) :=
    (hsearches _ point kept hat (fun _ _ => rfl)
      (fun _ _ _ hslot => absurd hslot (Nat.not_lt_zero _)) hindex).mono fun _ _ hmove => hmove.1
  exact ⟨code, hcode, tries_of_enumerates hsearch hrelated.running⟩

/-- The instructions of a class value try, from every position of a text, the alternatives of the
edition that match, in its order. -/
theorem buildClassValue_tries {final : Builder} {failAt : ℕ} {machine : Machine} {point : Point}
    {ordered : List (List ℕ)} (hnodup : value.strings.Nodup)
    (hseparated : builder.ignoreCase = true →
      Separated (characterSet builder span) value.strings)
    (hordered : InDescendingLength value ordered)
    (h : buildClassValue builder value backward span = .ok builder')
    (hfinished : Finished final program) (hcontinues : Continues builder builder' final failAt)
    (hregisters : builder'.registers ≤ program.registers)
    (hfail : program.instructions[failAt]? = some .fail)
    (hrelated : Related program machine point kept)
    (haddress : machine.address = builder.instructions.length)
    (hindex : machine.index ≤ text.length) :
    Tries limits program text builder'.instructions.length kept
      (classValueEnds builder span (program.reader text) backward value ordered machine.index)
      (.running machine) := by
  have hcases : Separated (characterSet builder span) value.strings := by
    cases hfold : builder.ignoreCase with
    | true => exact hseparated hfold
    | false => exact separated_plain hfold _
  obtain ⟨code, hcode, htries⟩ := buildClassValue_branches h hfinished hcontinues hregisters hfail
    hrelated haddress hindex
  rw [classValueCode_results hnodup hcases hordered hcode] at htries
  unfold Place.movedToEach at htries
  rw [map_map] at htries
  exact (map_id _ : map _ (classValueEnds builder span (program.reader text) backward
    value ordered machine.index) = _) ▸ htries

/-! ## Two class values -/

/-- A builder with its shared failure still to be placed. -/
def openBuilder (ignoreCase : Bool) (unicodeData : UnicodeData) : Builder where
  addresses := [none]
  failLabel := 0
  instructions := []
  limits := defaultRegExpMatcherLimits
  sets := []
  unicodeData
  unicodeMode := true
  unicodeSets := true
  dotAll := false
  ignoreCase
  lowered := 0
  multiline := false
  registers := 2

/-- A builder that ends its program, with the position it comes to as its capture. -/
def endedBuilder (builder : Builder) : Builder :=
  { builder with
    instructions := builder.instructions ++ [.save 0, .save 1, .accept, .fail]
    addresses := builder.addresses.set 0 (some (builder.instructions.length + 3)) }

/-- The program of a builder. -/
def runnable (builder : Builder) : MatcherProgram where
  canonicalization := none
  captures := []
  flags := ⟨false, false, false, false, false, false, "v", false, true⟩
  groupNames := []
  instructions := builder.instructions.map (resolveTargets builder.addresses)
  registers := builder.registers
  sets := builder.sets
  source := []
  unicodeMode := builder.unicodeMode

lemma endedBuilder_continues (hfail : builder.failLabel = 0)
    (hold : 0 < builder.addresses.length) (hlabels : 0 < builder'.addresses.length) :
    Continues builder builder' (endedBuilder builder') (builder'.instructions.length + 3) where
  grows := {
    instructions := prefix_append _ _
    sets := prefix_refl _
    registers := Nat.le_refl _
    labels := by simp [endedBuilder]
    addresses := fun label hlabel => by
      have : 0 ≠ label := by
        have hle := hlabel.1
        omega
      exact getElem?_set_ne this }
  failAt := by
    rw [hfail]
    exact getElem?_set_self hlabels

/-- The letters a and b with two strings and the empty string. -/
def letterValue : ClassValue where
  characters := [0x61, 0x63]
  strings := [[0x61, 0x62], [], [0x61, 0x62, 0x63]]

/-- What a builder emitted, where it did not refuse. -/
def emittedBuilder (builder : Builder) (value : ClassValue) : Builder :=
  match buildClassValue builder value false ⟨0, 0⟩ with
  | .ok builder' => builder'
  | .error _ => builder

/-- A builder of `v` with no Unicode data. -/
def letterBuilder : Builder := openBuilder false ⟨none, none, none, none, none⟩

theorem buildClassValue_tries_letters :
    Tries .removed (runnable (endedBuilder (emittedBuilder letterBuilder letterValue)))
      [0x61, 0x62, 0x63] (emittedBuilder letterBuilder letterValue).instructions.length []
      [3, 2, 1, 0]
      (.running (initialMachine (runnable (endedBuilder
        (emittedBuilder letterBuilder letterValue))) [0x61, 0x62, 0x63] 0)) :=
  @buildClassValue_tries letterBuilder (emittedBuilder letterBuilder letterValue) ⟨0, 0⟩ false
    letterValue .removed (runnable (endedBuilder (emittedBuilder letterBuilder letterValue)))
    [0x61, 0x62, 0x63] [] (endedBuilder (emittedBuilder letterBuilder letterValue))
    ((emittedBuilder letterBuilder letterValue).instructions.length + 3)
    (initialMachine (runnable (endedBuilder (emittedBuilder letterBuilder letterValue)))
      [0x61, 0x62, 0x63] 0) _
    [[0x61, 0x62, 0x63], [0x61, 0x62]] (by decide) nofun ⟨by decide, by decide⟩ rfl ⟨rfl, rfl⟩
    (endedBuilder_continues rfl (by decide) (by decide)) (Nat.le_refl _) rfl
    (initialMachine_related _ _ 0) rfl (by decide)

/-- A property of three strings, one of them with a capital letter, and the case rule of a. -/
def casedData : UnicodeData where
  caseEquivalenceClasses := some fun _ => [[0x61, 0x41]]
  propertySet := none
  stringPropertySet := some fun _ =>
    some [[0x61, 0x62, 0x7a, 0x7a], [0x41, 0x62, 0x63], [0x61, 0x62]]
  generalCategoryValue := none
  spaceSeparators := none

def casedBuilder : Builder := openBuilder true casedData

def casedEscape : UnicodePropertyEscape := ⟨false, "Strings", ⟨0, 0⟩, none⟩

def casedValue : ClassValue where
  characters := []
  strings := [[0x61, 0x62, 0x7a, 0x7a], [0x41, 0x62, 0x63], [0x61, 0x62]]

/-- The machine after its position is saved. -/
def savedMachine (machine : Machine) (slot : ℕ) : Machine where
  address := machine.address + 1
  index := machine.index
  registers := Function.update machine.registers slot (some machine.index)
  stack := machine.stack
  steps := machine.steps + 1
  trail := ⟨slot, machine.read slot unset⟩ :: machine.trail

lemma save_step {machine : Machine} {slot : ℕ}
    (hsave : program.instructions[machine.address]? = some (.save slot)) :
    step .removed program text machine = .running (savedMachine machine slot) := by
  unfold step
  dsimp only
  rw [hsave]
  rfl

/-- A machine where a program saves its position twice and accepts. -/
lemma saved_accepts {machine : Machine} (hcaptures : program.captures = [])
    (hfirst : program.instructions[machine.address]? = some (.save 0))
    (hsecond : program.instructions[machine.address + 1]? = some (.save 1))
    (haccept : program.instructions[machine.address + 2]? = some .accept) :
    matchLoop .removed program text 3 machine =
      some (.matched [some ⟨machine.index, machine.index⟩] (machine.steps + 3)) := by
  rw [matchLoop_of_step (save_step hfirst),
    matchLoop_of_step (save_step (show program.instructions[(savedMachine machine 0).address]? = _
      from hsecond)), matchLoop]
  have hunset : (machine.index : ℤ) ≠ unset := by
    unfold unset
    omega
  have hcollect : ∀ steps, collectCapture
      { savedMachine (savedMachine machine 0) 1 with steps } 0 =
        some ⟨machine.index, machine.index⟩ := by
    intro steps
    show (if (machine.index : ℤ) = unset ∨ (machine.index : ℤ) = unset then none else _) = _
    rw [if_neg (by simp [hunset])]
    rfl
  unfold step
  dsimp only
  rw [show program.instructions[(savedMachine (savedMachine machine 0) 1).address]? = _
    from haccept]
  show some (Execution.matched (collectCaptures program _) _) = _
  unfold collectCaptures
  rw [hcaptures]
  show some (Execution.matched [collectCapture _ 0] _) = _
  rw [hcollect]
  rfl

lemma Tries.first {index : ℕ} {ends : List ℕ} {machine : Machine}
    (h : Tries .removed program text last kept (index :: ends) (.running machine)) :
    ∃ count machine', (∀ fuel, matchLoop .removed program text (fuel + count) machine =
      matchLoop .removed program text fuel machine') ∧
      machine'.address = last ∧ machine'.index = index := by
  cases h with
  | limit limited => exact absurd rfl limited
  | arrive count loop address rest => exact ⟨count, _, loop, address, rfl⟩

/-- The trie tries the two strings with the small letter before the one with the capital. -/
theorem buildClassValue_misorders : ¬ ∀ (builder builder' final : Builder) (span : Span)
    (backward : Bool) (escape : UnicodePropertyEscape) (value : ClassValue)
    (ordered : List (List ℕ)) (limits : ExecutionLimits) (program : MatcherProgram)
    (text : List CodeUnit) (kept : List Point) (failAt : ℕ) (machine : Machine) (point : Point),
    propertyEscapeClassValue builder escape = .ok value →
    value.strings.Nodup → (∀ string ∈ value.strings, string.length ≠ 1) →
    InDescendingLength value ordered →
    buildClassValue builder value backward span = .ok builder' →
    Finished final program → Continues builder builder' final failAt →
    builder'.registers ≤ program.registers → program.instructions[failAt]? = some .fail →
    Related program machine point kept → machine.address = builder.instructions.length →
    machine.index ≤ text.length →
    Tries limits program text builder'.instructions.length kept
      (classValueEnds builder span (program.reader text) backward value ordered machine.index)
      (.running machine) := by
  intro hclaim
  have htries := hclaim casedBuilder (emittedBuilder casedBuilder casedValue)
    (endedBuilder (emittedBuilder casedBuilder casedValue)) ⟨0, 0⟩ false casedEscape casedValue
    casedValue.strings .removed (runnable (endedBuilder (emittedBuilder casedBuilder casedValue)))
    [0x61, 0x62, 0x63] [] ((emittedBuilder casedBuilder casedValue).instructions.length + 3)
    (initialMachine (runnable (endedBuilder (emittedBuilder casedBuilder casedValue)))
      [0x61, 0x62, 0x63] 0) _ rfl (by decide) (by decide) ⟨by decide, by decide⟩ rfl ⟨rfl, rfl⟩
    (endedBuilder_continues rfl (by decide) (by decide)) (Nat.le_refl _) rfl
    (initialMachine_related _ _ 0) rfl (by decide)
  have hends : classValueEnds casedBuilder ⟨0, 0⟩
      ((runnable (endedBuilder (emittedBuilder casedBuilder casedValue))).reader
        [0x61, 0x62, 0x63]) false casedValue casedValue.strings 0 = [3, 2] := by decide
  have hrun : matchLoop .removed
      (runnable (endedBuilder (emittedBuilder casedBuilder casedValue))) [0x61, 0x62, 0x63] 30
      (initialMachine (runnable (endedBuilder (emittedBuilder casedBuilder casedValue)))
        [0x61, 0x62, 0x63] 0) = some (.matched [some ⟨2, 2⟩] 9) := by decide
  have hfirst : Tries .removed _ _ _ [] [3, 2] _ := hends ▸ htries
  obtain ⟨count, machine, hloop, haddress, hindex⟩ := hfirst.first
  have haccepts : matchLoop .removed
      (runnable (endedBuilder (emittedBuilder casedBuilder casedValue))) [0x61, 0x62, 0x63] 3
      machine = some (.matched [some ⟨machine.index, machine.index⟩] (machine.steps + 3)) := by
    apply saved_accepts rfl
    · rw [haddress]
      rfl
    · rw [haddress]
      rfl
    · rw [haddress]
      rfl
  -- The loop would end at both positions.
  rw [hindex, ← hloop 3] at haccepts
  have hmore := matchLoop_add haccepts 30
  rw [Nat.add_comm, matchLoop_add hrun] at hmore
  cases hmore

end Oseo.RegExpMatcher
