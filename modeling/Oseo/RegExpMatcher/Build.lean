import Oseo.RegExpMatcher.Program

/-!
# Building a matcher program

The builder state of `regexp-matcher.ts`, its labels, the sets a character atom names, the values of
`v`-mode class sets, and the trie a set of strings is emitted as.

* a refusal is an `Except.error`;
* an interned set is looked up by its list, which the key of the source spells out;
* the caches of the source (case classes, representatives, word sets) hold what computing them
  again gives, and are left out;
* an ordered map from strings to strings is the list of its strings, without repetition;
* the operands of a set are resolved in order before their values are combined, since nothing
  in combining them refuses.
-/

namespace Oseo.RegExpMatcher

/-- The emitter state of one build. A label that is not placed has no address. -/
structure Builder where
  addresses : List (Option ℕ)
  failLabel : ℕ
  instructions : List Instruction
  limits : MatcherLimits
  sets : List MatcherSet
  unicodeData : UnicodeData
  unicodeMode : Bool
  unicodeSets : Bool
  dotAll : Bool
  ignoreCase : Bool
  lowered : ℕ
  multiline : Bool
  registers : ℕ

/-- The outcome of a builder function: the value, or the located refusal. -/
abbrev Build (α : Type) := Except PatternError α

def refuse {α : Type} (kind : ErrorKind) (message : String) (span : Span) : Build α :=
  .error { kind, message, errorSection := .pattern, span }

/-- A new label, not placed yet. -/
def newLabel (builder : Builder) : ℕ × Builder :=
  (builder.addresses.length, { builder with addresses := builder.addresses ++ [none] })

/-- Place a label at the next instruction. -/
def placeLabel (builder : Builder) (label : ℕ) : Builder :=
  { builder with addresses := builder.addresses.set label (some builder.instructions.length) }

/-- What an instruction costs in the lowered count. -/
def Instruction.cost : Instruction → ℕ
  | .backreference _ _ slots => max slots.length 1
  | _ => 1

def emit (builder : Builder) (instruction : Instruction) (span : Span) : Build Builder :=
  if builder.lowered + instruction.cost > builder.limits.instructions then
    refuse .limit "A pattern needs more matcher instructions than the reviewed limit." span
  else
    .ok { builder with
      lowered := builder.lowered + instruction.cost
      instructions := builder.instructions ++ [instruction] }

def allocateRegisters (builder : Builder) (count : ℕ) (span : Span) : Build (ℕ × Builder) :=
  if builder.registers + count > builder.limits.registers then
    refuse .limit "A pattern needs more matcher registers than the reviewed limit." span
  else .ok (builder.registers, { builder with registers := builder.registers + count })

/-- Intern one set, so equal sets share one artifact entry. -/
def internSet (builder : Builder) (set : MatcherSet) : ℕ × Builder :=
  if set ∈ builder.sets then (builder.sets.idxOf set, builder)
  else (builder.sets.length, { builder with sets := builder.sets ++ [set] })

/-! ## Canonicalization -/

def caseClasses (builder : Builder) (span : Span) : Build (List (List ℕ)) :=
  match builder.unicodeData.caseEquivalenceClasses with
  | none =>
    refuse .unsupported
      "An ignore-case pattern needs case folding data that is not linked." span
  | some provide => .ok (provide builder.unicodeMode)

/-- The members a set gains when it is closed under `classes`. -/
def addedMembers (classes : List (List ℕ)) (set : MatcherSet) : List (ℕ × ℕ) :=
  classes.flatMap fun members =>
    if members.any (setHas set) then
      (members.filter fun member => !setHas set member).map fun member => (member, member)
    else []

/-- Close one set under the pattern's canonicalization. -/
def closeSet (builder : Builder) (set : MatcherSet) (span : Span) : Build MatcherSet :=
  if !builder.ignoreCase then .ok set
  else do
    let classes ← caseClasses builder span
    let added := addedMembers classes set
    return if added.isEmpty then set else setUnion set (setOfRanges added)

/-- The lowest member of a class. -/
def lowestMember (members : List ℕ) : ℕ :=
  members.foldl min (members.head?.getD 0)

/-- Each cased character with one stable representative; a later class wins. -/
def caseRepresentatives (builder : Builder) (span : Span) : Build (ℕ → Option ℕ) := do
  let classes ← caseClasses builder span
  return fun character =>
    (classes.reverse.find? (character ∈ ·)).map lowestMember

/-! ## Named sets -/

def wordCharacters (builder : Builder) (span : Span) : Build MatcherSet :=
  closeSet builder basicWordCharacters span

def spaceCharacters (builder : Builder) (span : Span) : Build MatcherSet :=
  match builder.unicodeData.spaceSeparators with
  | none =>
    refuse .unsupported
      "A whitespace class escape needs Unicode category data that is not linked." span
  | some separators => .ok (setUnion (setUnion namedWhiteSpace separators) lineTerminators)

/-- The raw set one `\d`, `\s`, or `\w` escape names, before closing. -/
def classEscapeSet (builder : Builder) (set : ClassEscapeSet) (span : Span) :
    Build MatcherSet :=
  match set with
  | .digit => .ok decimalDigits
  | .space => spaceCharacters builder span
  | .word => wordCharacters builder span

/-- A class escape with its negation, before closing. -/
def negatableClassEscapeSet (builder : Builder) (negated : Bool) (set : ClassEscapeSet)
    (span : Span) : Build MatcherSet := do
  let named ← classEscapeSet builder set span
  return if negated then setComplement named else named

def propertyEscapeSet (builder : Builder) (escape : UnicodePropertyEscape) :
    Build MatcherSet :=
  match builder.unicodeData.propertySet with
  | none =>
    refuse .unsupported
      "A Unicode property escape needs property data that is not linked." escape.span
  | some resolve =>
    match resolve escape with
    | none =>
      refuse .unsupported "This Unicode property names no code-point set." escape.span
    | some resolved =>
      if !escape.negated then .ok resolved
      -- under `iv` the property is folded before it is complemented
      else if builder.unicodeSets && builder.ignoreCase then do
        let closed ← closeSet builder resolved escape.span
        return setComplement closed
      else .ok (setComplement resolved)

/-- The raw set one class member names, before the class is closed. -/
def classItemSet (builder : Builder) : ClassItem → Build MatcherSet
  | .character value _ => .ok (setOfRange value value)
  | .range start finish _ => .ok (setOfRange start finish)
  | .classEscape negated set span => negatableClassEscapeSet builder negated set span
  | .unicodeProperty escape => propertyEscapeSet builder escape

def characterClassSet (builder : Builder) (items : List ClassItem) : Build MatcherSet :=
  items.foldlM (fun union item => do
    let set ← classItemSet builder item
    return setUnion union set) []

/-! ## Class sets and class strings -/

/-- A set of characters and of strings. -/
structure ClassValue where
  characters : MatcherSet
  strings : List (List ℕ)

/-- Add a string unless it is there. -/
def addUnique (unique : List (List ℕ)) (sequence : List ℕ) : List (List ℕ) :=
  if sequence ∈ unique then unique else unique ++ [sequence]

/-- Fold one class-set value into a running union of values. -/
def addClassValue (running : SetUnionSlots × List (List ℕ)) (value : ClassValue) :
    SetUnionSlots × List (List ℕ) :=
  let single := value.strings.filterMap fun sequence =>
    match sequence with
    | [character] => some (character, character)
    | _ => none
  let unique := (value.strings.filter fun sequence => sequence.length ≠ 1).foldl
    addUnique running.2
  let slots := addSetUnion running.1 value.characters
  (if single.isEmpty then slots else addSetUnion slots (setOfRanges single), unique)

/-- One class-set value with its one-character alternatives folded in. -/
def normalizeClassValue (value : ClassValue) : ClassValue :=
  let running := addClassValue ([], []) value
  { characters := finishSetUnion running.1, strings := running.2 }

def propertyEscapeClassValue (builder : Builder) (escape : UnicodePropertyEscape) :
    Build ClassValue :=
  match builder.unicodeData.propertySet.bind (· escape) with
  | some _ => do
    let characters ← propertyEscapeSet builder escape
    return { characters, strings := [] }
  | none =>
    match builder.unicodeData.stringPropertySet.bind (· escape), escape.negated with
    | some strings, false => .ok (normalizeClassValue { characters := [], strings })
    | _, _ =>
      refuse .unsupported "A Unicode property of strings needs data that is not linked."
        escape.span

/-- Whether one escape is a lone General_Category value such as `\p{Ll}`. -/
def loneGeneralCategory (builder : Builder) (escape : UnicodePropertyEscape) : Build Bool :=
  if escape.value.isSome then .ok false
  else
    match builder.unicodeData.generalCategoryValue with
    | none =>
      refuse .unsupported
        ("A lone Unicode property escape needs the General_Category value " ++
          "classification that is not linked.") escape.span
    | some classify => .ok (classify escape.property)

/-- Whether one operand keeps its exact code points through set algebra. -/
def preservesExactOperand (builder : Builder) : ClassSetOperand → Build Bool
  | .classSet _ _ _ _ => .ok true
  | .item (.unicodeProperty escape) =>
    if escape.negated then .ok false else loneGeneralCategory builder escape
  | _ => .ok false

def ClassItem.span : ClassItem → Span
  | .character _ span => span
  | .range _ _ span => span
  | .classEscape _ _ span => span
  | .unicodeProperty escape => escape.span

def ClassSetOperand.span : ClassSetOperand → Span
  | .item member => member.span
  | .classStrings _ span => span
  | .classSet _ _ _ span => span

/-- The closing of an operand's value under `iv`. -/
def foldOperandValue (builder : Builder) (operand : ClassSetOperand) (value : ClassValue) :
    Build ClassValue :=
  if !builder.unicodeSets || !builder.ignoreCase then .ok value
  else do
    let representatives ← caseRepresentatives builder operand.span
    let exact ← preservesExactOperand builder operand
    let characters ←
      (if exact then .ok value.characters
      else closeSet builder value.characters operand.span : Build MatcherSet)
    return normalizeClassValue
      { characters
        strings := value.strings.map fun sequence =>
          sequence.map fun character => (representatives character).getD character }

/-- The value of the first operand, or the empty value for no operand at all. -/
def leadingClassValue : List ClassValue → ClassValue
  | [] => { characters := [], strings := [] }
  | first :: _ => normalizeClassValue first

def unionClassSet (values : List ClassValue) : ClassValue :=
  let running := values.foldl addClassValue ([], [])
  { characters := finishSetUnion running.1, strings := running.2 }

/-- The intersection of the first operand with every operand after it. A string of the first
operand stays when as many later operands hold it as there are. -/
def intersectClassSet (values : List ClassValue) : ClassValue :=
  let left := leadingClassValue values
  let rights := values.tail
  { characters := rights.foldl (fun characters value =>
      setIntersection characters value.characters) left.characters
    strings := left.strings.filter fun sequence =>
      (rights.filter fun value => sequence ∈ value.strings).length = rights.length }

/-- The first operand less every operand after it. -/
def subtractClassSet (values : List ClassValue) : ClassValue :=
  let left := leadingClassValue values
  let rights := values.tail
  let slots := rights.foldl (fun slots value => addSetUnion slots value.characters) []
  { characters := setDifference left.characters (finishSetUnion slots)
    strings := left.strings.filter fun sequence =>
      rights.all fun value => sequence ∉ value.strings }

/-- The value of a class set from the values of its operands. -/
def combineClassValues (builder : Builder) (negated : Bool) (operation : ClassSetOperation)
    (span : Span) (values : List ClassValue) : Build ClassValue :=
  let value := match operation with
    | .union => unionClassSet values
    | .intersection => intersectClassSet values
    | .subtraction => subtractClassSet values
  if !negated then .ok value
  else if !value.strings.isEmpty then
    refuse .unsupported "A negated class set cannot contain strings." span
  else if builder.unicodeSets && builder.ignoreCase then do
    let closed ← closeSet builder value.characters span
    return { characters := setComplement closed, strings := [] }
  else .ok { characters := setComplement value.characters, strings := [] }

mutual

def classSetOperandValue (builder : Builder) : ClassSetOperand → Build ClassValue
  | .classSet negated operation operands span => do
    let values ← classSetOperandValues builder operands
    let value ← combineClassValues builder negated operation span values
    foldOperandValue builder (.classSet negated operation operands span) value
  | .classStrings strings span =>
    foldOperandValue builder (.classStrings strings span)
      (normalizeClassValue { characters := [], strings })
  | .item (.unicodeProperty escape) => do
    let value ← propertyEscapeClassValue builder escape
    foldOperandValue builder (.item (.unicodeProperty escape)) value
  | .item item => do
    let characters ← classItemSet builder item
    foldOperandValue builder (.item item) { characters, strings := [] }

def classSetOperandValues (builder : Builder) :
    List ClassSetOperand → Build (List ClassValue)
  | [] => .ok []
  | operand :: operands => do
    let value ← classSetOperandValue builder operand
    let values ← classSetOperandValues builder operands
    return value :: values

end

def classSetValue (builder : Builder) (negated : Bool) (operation : ClassSetOperation)
    (operands : List ClassSetOperand) (span : Span) : Build ClassValue := do
  let values ← classSetOperandValues builder operands
  combineClassValues builder negated operation span values

/-! ## Emitting a class value -/

/-- The branch of `emitClassValueBranch` for a set of characters. -/
def emitClassCharacters (builder : Builder) (set : MatcherSet) (backward : Bool)
    (span : Span) : Build Builder := do
  let closed ← closeSet builder set span
  let (index, builder) := internSet builder closed
  emit builder (.consume backward index) span

/-- The branch of `emitClassValueBranch` for one character of a string. -/
def emitClassCharacter (builder : Builder) (character : ℕ) (backward : Bool) (span : Span) :
    Build Builder :=
  emitClassCharacters builder (setOfRange character character) backward span

/-- A trie of strings; the children keep the order they were added in. -/
inductive ClassStringTrie
  | node (terminal : Bool) (children : List (ℕ × ClassStringTrie))

def ClassStringTrie.empty : ClassStringTrie := .node false []

/-- Add one string to a trie. -/
def ClassStringTrie.add : (sequence : List ℕ) → ClassStringTrie → ClassStringTrie
  | [], .node _ children => .node true children
  | character :: sequence, .node terminal children =>
    if children.any (·.1 = character) then
      .node terminal (children.map fun child =>
        if child.1 = character then (character, child.2.add sequence) else child)
    else .node terminal (children ++ [(character, ClassStringTrie.empty.add sequence)])

/-- The trie of a list of strings, the longest first. -/
def classStringTrie (sequences : List (List ℕ)) (backward : Bool) : ClassStringTrie :=
  let sorted := sequences.insertionSort fun first second => second.length ≤ first.length
  sorted.foldl (fun root source =>
    root.add (if backward then source.reverse else source)) .empty

/-- One pending step of the iterative trie emission. -/
inductive ClassStringStep
  | branch (label : ℕ) (entries : List (ℕ × ClassStringTrie)) (terminal : Bool)
  | consume (character : ℕ)
  | finish (jump : Option ℕ) (label : ℕ)
  | node (node : ClassStringTrie)

/-- One round of `emitClassStringTrie`, with the steps left to do, the next one first. A branch
step keeps only the entries it has not reached. -/
def emitClassStringStep (builder : Builder) (backward : Bool) (span : Span)
    (steps : List ClassStringStep) : ClassStringStep → Build (Builder × List ClassStringStep)
  | .consume character => do
    let builder ← emitClassCharacter builder character backward span
    return (builder, steps)
  | .finish (some target) label => do
    let builder ← emit builder (.jump target) span
    return (placeLabel builder label, steps)
  | .finish none label => .ok (placeLabel builder label, steps)
  | .node (.node terminal entries) =>
    if entries.isEmpty && !terminal then .ok (builder, steps)
    else
      let (label, builder) := newLabel builder
      .ok (builder, .branch label entries terminal :: steps)
  | .branch label [] _ => .ok (builder, .finish none label :: steps)
  | .branch label [(character, child)] false =>
    .ok (builder, .consume character :: .node child :: .finish none label :: steps)
  | .branch label ((character, child) :: entries) terminal => do
    let (preferred, builder) := newLabel builder
    let (next, builder) := newLabel builder
    let builder ← emit builder (.fork next preferred) span
    let builder := placeLabel builder preferred
    return (builder, .consume character :: .node child :: .finish (some label) next ::
      .branch label entries terminal :: steps)

/-- The loop of `emitClassStringTrie`. -/
def emitClassStringTrieLoop (backward : Bool) (span : Span) :
    (fuel : ℕ) → Builder → List ClassStringStep → Build Builder
  | _, builder, [] => .ok builder
  | 0, builder, _ :: _ => .ok builder
  | fuel + 1, builder, step :: steps => do
    let (builder, steps) ← emitClassStringStep builder backward span steps step
    emitClassStringTrieLoop backward span fuel builder steps

mutual

/-- The rounds the emission of one trie takes. -/
def ClassStringTrie.rounds : ClassStringTrie → ℕ
  | .node _ children => 3 + childRounds children

/-- The rounds the emission of the branches of a node takes. -/
def childRounds : List (ℕ × ClassStringTrie) → ℕ
  | [] => 0
  | (_, child) :: children => 3 + child.rounds + childRounds children

end

def emitClassStringTrie (builder : Builder) (root : ClassStringTrie) (backward : Bool)
    (span : Span) : Build Builder :=
  emitClassStringTrieLoop backward span root.rounds builder [.node root]

/-- One branch of a class value. -/
inductive ClassBranch
  | strings (trie : ClassStringTrie)
  | characters (set : MatcherSet)
  | empty

def emitClassBranch (builder : Builder) (backward : Bool) (span : Span) :
    ClassBranch → Build Builder
  | .strings trie => emitClassStringTrie builder trie backward span
  | .characters set => emitClassCharacters builder set backward span
  | .empty => .ok builder

/-- The loop of `emitClassAlternatives`. -/
def emitClassAlternativesLoop (backward : Bool) (span : Span) (finish : ℕ) :
    Builder → List ClassBranch → Build Builder
  | builder, [] => .ok builder
  | builder, [branch] => emitClassBranch builder backward span branch
  | builder, branch :: branches => do
    let (preferred, builder) := newLabel builder
    let (next, builder) := newLabel builder
    let builder ← emit builder (.fork next preferred) span
    let builder := placeLabel builder preferred
    let builder ← emitClassBranch builder backward span branch
    let builder ← emit builder (.jump finish) span
    let builder := placeLabel builder next
    emitClassAlternativesLoop backward span finish builder branches

def emitClassAlternatives (builder : Builder) (branches : List ClassBranch) (backward : Bool)
    (span : Span) : Build Builder :=
  if branches.isEmpty then .ok builder
  else do
    let (finish, builder) := newLabel builder
    let builder ← emitClassAlternativesLoop backward span finish builder branches
    return placeLabel builder finish

/-- The branches of a class value: strings, characters, the empty string. -/
def classBranches (value : ClassValue) (backward : Bool) : List ClassBranch :=
  let nonEmptyStrings := value.strings.filter fun sequence => !sequence.isEmpty
  (if nonEmptyStrings.isEmpty then []
    else [.strings (classStringTrie nonEmptyStrings backward)]) ++
  (if value.characters.isEmpty then [] else [.characters value.characters]) ++
  (if value.strings.any (·.isEmpty) then [.empty] else [])

def buildClassValue (builder : Builder) (value : ClassValue) (backward : Bool)
    (span : Span) : Build Builder :=
  if value.strings.isEmpty && value.characters.isEmpty then
    emitClassCharacters builder [] backward span
  else emitClassAlternatives builder (classBranches value backward) backward span

/-! ## The matcher builder

`buildRegExpMatcher` of `regexp-matcher.ts`: the tree walk that emits the program of a pattern,
and the labels it resolves at the end. A backward alternative evaluates its rightmost term
first, so its terms are emitted from the last to the first.
-/

/-! ## Captures of an atom -/

/-- Note one capture index among the lowest and highest seen. -/
def noteCapture (index : ℕ) : Option (ℕ × ℕ) → Option (ℕ × ℕ)
  | none => some (index, index)
  | some (first, last) => some (min first index, max last index)

mutual

/-- The captures of an atom, noted from `bounds` on. -/
def visitAtom : Atom → Option (ℕ × ℕ) → Option (ℕ × ℕ)
  | .capturingGroup body index _, bounds => visitDisjunction body (noteCapture index bounds)
  | .group body _, bounds => visitDisjunction body bounds
  | .modifierGroup body _ _ _, bounds => visitDisjunction body bounds
  | _, bounds => bounds

def visitTerm : Term → Option (ℕ × ℕ) → Option (ℕ × ℕ)
  | .atom atom, bounds => visitAtom atom bounds
  | .assertion _ _, bounds => bounds
  | .lookaround body _ _ _, bounds => visitDisjunction body bounds
  | .quantified atom _ _, bounds => visitAtom atom bounds

def visitTerms : List Term → Option (ℕ × ℕ) → Option (ℕ × ℕ)
  | [], bounds => bounds
  | term :: terms, bounds => visitTerms terms (visitTerm term bounds)

def visitAlternative : Alternative → Option (ℕ × ℕ) → Option (ℕ × ℕ)
  | .mk terms _, bounds => visitTerms terms bounds

def visitAlternatives : List Alternative → Option (ℕ × ℕ) → Option (ℕ × ℕ)
  | [], bounds => bounds
  | alternative :: alternatives, bounds =>
    visitAlternatives alternatives (visitAlternative alternative bounds)

def visitDisjunction : Disjunction → Option (ℕ × ℕ) → Option (ℕ × ℕ)
  | .mk alternatives, bounds => visitAlternatives alternatives bounds

end

/-- The lowest and highest capture index one atom encloses. -/
def captureBounds (atom : Atom) : Option (ℕ × ℕ) := visitAtom atom none

/-! ## Atoms that consume -/

/-- The set one consuming atom matches, or none for another atom. -/
def characterAtomSet (builder : Builder) : Atom → Build (Option MatcherSet)
  | .character value span => some <$> closeSet builder (setOfRange value value) span
  | .dot span =>
    let dot := if builder.dotAll then setOfRange 0 maximumCodePoint
      else setComplement lineTerminators
    some <$> closeSet builder dot span
  | .classEscape negated set span => do
    let named ← negatableClassEscapeSet builder negated set span
    some <$> closeSet builder named span
  | .unicodeProperty escape =>
    if (builder.unicodeData.propertySet.bind (· escape)).isNone &&
        (builder.unicodeData.stringPropertySet.bind (· escape)).isSome then .ok none
    else do
      let set ← propertyEscapeSet builder escape
      some <$> closeSet builder set escape.span
  | .characterClass items negated span => do
    let union ← characterClassSet builder items
    let closed ← closeSet builder union span
    return some (if negated then setComplement closed else closed)
  | _ => .ok none

/-- Emit the instruction that consumes one character of a set. -/
def emitConsume (builder : Builder) (set : MatcherSet) (backward : Bool) (span : Span) :
    Build Builder :=
  let (index, builder) := internSet builder set
  emit builder (.consume backward index) span

def Atom.span : Atom → Span
  | .backreference _ span => span
  | .capturingGroup _ _ span => span
  | .character _ span => span
  | .characterClass _ _ span => span
  | .classSet _ _ _ span => span
  | .classEscape _ _ span => span
  | .dot span => span
  | .group _ span => span
  | .modifierGroup _ _ _ span => span
  | .namedBackreference _ _ span => span
  | .unicodeProperty escape => escape.span

/-! ## Terms -/

/-- The builder inside a modifier group. -/
def enterModifiers (builder : Builder) (disabled enabled : List ModifierFlag) : Builder :=
  { builder with
    dotAll := enabled.contains .s || (builder.dotAll && !disabled.contains .s)
    ignoreCase := enabled.contains .i || (builder.ignoreCase && !disabled.contains .i)
    multiline := enabled.contains .m || (builder.multiline && !disabled.contains .m) }

/-- The builder after a modifier group, with the flags of `outer` again. -/
def leaveModifiers (builder outer : Builder) : Builder :=
  { builder with
    dotAll := outer.dotAll
    ignoreCase := outer.ignoreCase
    multiline := outer.multiline }

def emitBackreference (builder : Builder) (slots : List ℕ) (backward : Bool) (span : Span) :
    Build Builder :=
  emit builder (.backreference backward builder.ignoreCase slots) span

def buildAssertion (builder : Builder) (assertion : AssertionKind) (span : Span) :
    Build Builder :=
  match assertion with
  | .start => emit builder (.edge .start builder.multiline) span
  | .finish => emit builder (.edge .finish builder.multiline) span
  | _ => do
    let words ← wordCharacters builder span
    let (set, builder) := internSet builder words
    emit builder (.boundary (assertion = .nonWordBoundary) set) span

mutual

def buildAtom (backward : Bool) (atom : Atom) (builder : Builder) : Build Builder := do
  match ← characterAtomSet builder atom with
  | some set => emitConsume builder set backward atom.span
  | none =>
    match atom with
    | .classSet negated operation operands span => do
      let value ← classSetValue builder negated operation operands span
      buildClassValue builder value backward span
    | .unicodeProperty escape => do
      let value ← propertyEscapeClassValue builder escape
      buildClassValue builder value backward escape.span
    | .capturingGroup body index span => do
      let start := 2 * index
      let finish := start + 1
      let builder ← emit builder (.save (if backward then finish else start)) span
      let builder ← buildDisjunction backward body builder
      emit builder (.save (if backward then start else finish)) span
    | .group body _ => buildDisjunction backward body builder
    | .modifierGroup body disabled enabled _ => do
      let inner ← buildDisjunction backward body (enterModifiers builder disabled enabled)
      return leaveModifiers inner builder
    | .backreference index span => emitBackreference builder [2 * index] backward span
    | .namedBackreference indices _ span =>
      emitBackreference builder (indices.map (2 * ·)) backward span
    | _ =>
      refuse .unsupported "This pattern atom has no matcher lowering yet." atom.span

def buildTerm (backward : Bool) (term : Term) (builder : Builder) : Build Builder :=
  match term with
  | .atom atom => buildAtom backward atom builder
  | .assertion kind span => buildAssertion builder kind span
  | .lookaround body direction negated span => do
    let (frame, builder) ← allocateRegisters builder 1 span
    let (start, builder) := newLabel builder
    let (exit, builder) := newLabel builder
    let onFail := if negated then exit else builder.failLabel
    let builder ← emit builder (.lookStart start frame negated onFail) span
    let builder := placeLabel builder start
    let builder ← buildDisjunction (direction = .behind) body builder
    let builder ← emit builder (.lookEnd exit frame negated) span
    return placeLabel builder exit
  | .quantified atom quantifier span => do
    let (counter, builder) ← allocateRegisters builder 2 span
    let position := counter + 1
    let bounds := captureBounds atom
    let (head, builder) := newLabel builder
    let (enter, builder) := newLabel builder
    let (body, builder) := newLabel builder
    let (exit, builder) := newLabel builder
    let builder ← emit builder (.repeatInit counter) span
    let builder := placeLabel builder head
    let builder ← emit builder (.repetition counter enter exit quantifier.greedy
      quantifier.maximum quantifier.minimum) span
    let builder := placeLabel builder enter
    let clearFrom := bounds.elim 0 fun bounds => 2 * bounds.1
    let clearTo := bounds.elim 0 fun bounds => 2 * bounds.2 + 2
    let builder ← emit builder (.repeatEnter body clearFrom clearTo counter position) span
    let builder := placeLabel builder body
    let builder ← buildAtom backward atom builder
    let builder ← emit builder (.repeatEnd counter head quantifier.minimum position) span
    return placeLabel builder exit

def buildTerms (backward : Bool) (terms : List Term) (builder : Builder) : Build Builder :=
  match terms with
  | [] => .ok builder
  | term :: terms =>
    if backward then do
      let builder ← buildTerms backward terms builder
      buildTerm backward term builder
    else do
      let builder ← buildTerm backward term builder
      buildTerms backward terms builder

/-- Emit one alternative in evaluation order. -/
def buildAlternative (backward : Bool) (alternative : Alternative) (builder : Builder) :
    Build Builder :=
  match alternative with
  | .mk terms _ => buildTerms backward terms builder

/-- The loop of `buildDisjunction` over its alternatives. -/
def buildAlternatives (backward : Bool) (finish : ℕ) (alternatives : List Alternative)
    (builder : Builder) : Build Builder :=
  match alternatives with
  | [] => .ok builder
  | .mk terms span :: alternatives =>
    if alternatives.isEmpty then buildTerms backward terms builder
    else do
      let (preferred, builder) := newLabel builder
      let (next, builder) := newLabel builder
      let builder ← emit builder (.fork next preferred) span
      let builder := placeLabel builder preferred
      let builder ← buildTerms backward terms builder
      let builder ← emit builder (.jump finish) span
      let builder := placeLabel builder next
      buildAlternatives backward finish alternatives builder

def buildDisjunction (backward : Bool) (disjunction : Disjunction) (builder : Builder) :
    Build Builder :=
  match disjunction with
  | .mk [alternative] => buildAlternative backward alternative builder
  | .mk alternatives => do
    let (finish, builder) := newLabel builder
    let builder ← buildAlternatives backward finish alternatives builder
    return placeLabel builder finish

end

/-! ## The artifact -/

/-- Rewrite every label reference into the address it was placed at. -/
def resolveTargets (addresses : List (Option ℕ)) : Instruction → Instruction
  | .fork alternative preferred => .fork (address alternative) (address preferred)
  | .jump target => .jump (address target)
  | .repetition counter enter exit greedy maximum minimum =>
    .repetition counter (address enter) (address exit) greedy maximum minimum
  | .repeatEnter body clearFrom clearTo counter position =>
    .repeatEnter (address body) clearFrom clearTo counter position
  | .repeatEnd counter head minimum position =>
    .repeatEnd counter (address head) minimum position
  | .lookStart body frame negated onFail =>
    .lookStart (address body) frame negated (address onFail)
  | .lookEnd exit frame negated => .lookEnd (address exit) frame negated
  | instruction => instruction
where
  address (label : ℕ) : ℕ := (addresses[label]?.getD none).getD 0

/-- Record every character whose canonical form is another character. -/
def canonicalizationTable (classes : List (List ℕ)) : Canonicalization :=
  let pairs := classes.flatMap fun members =>
    if members.length < 2 then []
    else
      let representative := lowestMember members
      (members.filter (· ≠ representative)).map fun member => (member, representative)
  let sorted := pairs.insertionSort fun first second => first.1 ≤ second.1
  { canonical := sorted.map (·.2), characters := sorted.map (·.1) }

/-- Whether one instruction compares two input characters under `i`. -/
def Instruction.comparesCharacters : Instruction → Bool
  | .backreference _ ignoreCase _ => ignoreCase
  | _ => false

/-- Whether one artifact compares two input characters under `i`. -/
def comparesCharacters (instructions : List Instruction) : Bool :=
  instructions.any (·.comparesCharacters)

/-- The builder `buildRegExpMatcher` starts from. -/
def initialBuilder (pattern : Pattern) (limits : MatcherLimits) (unicodeData : UnicodeData) :
    Builder where
  addresses := [none]
  failLabel := 0
  instructions := []
  limits
  sets := []
  unicodeData
  unicodeMode := regExpUnicodeMode pattern.flags
  unicodeSets := pattern.flags.unicodeSets
  dotAll := pattern.flags.dotAll
  ignoreCase := pattern.flags.ignoreCase
  lowered := 0
  multiline := pattern.flags.multiline
  registers := 2 * (pattern.captures.length + 1)

/-- The program around the body of a pattern: its whole match, its accept and its fail. -/
def buildWhole (pattern : Pattern) (whole : Span) (builder : Builder) : Build Builder := do
  let builder ← emit builder (.save 0) whole
  let builder ← buildDisjunction false pattern.body builder
  let builder ← emit builder (.save 1) whole
  let builder ← emit builder .accept whole
  let builder := placeLabel builder builder.failLabel
  emit builder .fail whole

/-- The table an artifact needs, if it compares characters under `i`. -/
def neededCanonicalization (builder : Builder) (whole : Span)
    (instructions : List Instruction) : Build (Option Canonicalization) :=
  if comparesCharacters instructions then do
    let classes ← caseClasses builder whole
    return some (canonicalizationTable classes)
  else .ok none

/-- Build the generic matcher artifact of one validated pattern. -/
def buildRegExpMatcher (pattern : Pattern) (limits : MatcherLimits)
    (unicodeData : UnicodeData) : Build MatcherProgram :=
  let builder := initialBuilder pattern limits unicodeData
  let whole := { start := 0, finish := pattern.source.length }
  if builder.registers > limits.registers then
    refuse .limit "A pattern needs more matcher registers than the reviewed limit." whole
  else do
    let builder ← buildWhole pattern whole builder
    let instructions := builder.instructions.map (resolveTargets builder.addresses)
    let canonicalization ← neededCanonicalization builder whole instructions
    return {
      canonicalization
      captures := pattern.captures
      flags := pattern.flags
      groupNames := pattern.groupNames
      instructions
      registers := builder.registers
      sets := builder.sets
      source := pattern.source
      unicodeMode := builder.unicodeMode }

end Oseo.RegExpMatcher
