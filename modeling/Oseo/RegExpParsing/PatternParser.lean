import Oseo.RegExpParsing.PatternReader

/-!
# Parsing a pattern

The productions of `regexp-parse.ts` that declare groups and references, and `parseRegExpPattern`.
Each production takes the one for a nested disjunction, which has one less of the nesting limit left
(the source counts it up in `depth`).
-/

namespace Oseo.RegExpParsing

open Oseo.RegExpMatcher
open Oseo.UriCoding (codeUnit between)

/-- Where one alternative sits in the enclosing disjunctions. -/
structure AlternativePath where
  alternative : ℕ
  disjunction : ℕ
deriving DecidableEq

structure NamedGroupRecord where
  name : String
  path : List AlternativePath
  span : Span
deriving DecidableEq

structure BackreferenceRecord where
  index : ℕ
  span : Span

structure NamedReferenceRecord where
  name : String
  span : Span

/-- What a parse changes. -/
structure ParseState where
  backreferences : List BackreferenceRecord
  captures : List Capture
  namedGroups : List NamedGroupRecord
  namedReferences : List NamedReferenceRecord
  path : List AlternativePath
  disjunctionCount : ℕ
  index : ℕ

abbrev Parse := StateT ParseState (Except PatternError)

/-- A function that moves the cursor, in a parse. -/
def reading {α : Type} (read : Read α) : Parse α := fun state => do
  let (value, index) ← read state.index
  pure (value, { state with index })

/-! ## Textual scans -/

/-- The loop of `countCapturingGroups`, from a unit on. -/
def countGroupsLoop : (insideClass : Bool) → (text : List CodeUnit) → (count : ℕ) → ℕ
  | _, [], count => count
  | insideClass, character :: text, count =>
    if character = codeUnit '\\' then
      match text with
      | [] => count
      | _ :: text => countGroupsLoop insideClass text count
    else if insideClass then countGroupsLoop (character ≠ codeUnit ']') text count
    else if character = codeUnit '[' then countGroupsLoop true text count
    else if character ≠ codeUnit '(' then countGroupsLoop false text count
    else if !isCharacter text[0]? '?' then countGroupsLoop false text (count + 1)
    else if !isCharacter text[1]? '<' then countGroupsLoop false text count
    else if !isCharacter text[2]? '=' && !isCharacter text[2]? '!' then
      countGroupsLoop false text (count + 1)
    else countGroupsLoop false text count

def countCapturingGroups (source : List CodeUnit) : ℕ := countGroupsLoop false source 0

/-- The loop of `scanForGroupName`, from a unit on. -/
def scanGroupNameLoop : (insideClass : Bool) → (text : List CodeUnit) → Bool
  | _, [] => false
  | insideClass, character :: text =>
    if character = codeUnit '\\' then
      match text with
      | [] => false
      | _ :: text => scanGroupNameLoop insideClass text
    else if insideClass then scanGroupNameLoop (character ≠ codeUnit ']') text
    else if character = codeUnit '[' then scanGroupNameLoop true text
    else if character ≠ codeUnit '(' then scanGroupNameLoop false text
    else if !isCharacter text[0]? '?' || !isCharacter text[1]? '<' then scanGroupNameLoop false text
    else if !isCharacter text[2]? '=' && !isCharacter text[2]? '!' then true
    else scanGroupNameLoop false text

def scanForGroupName (source : List CodeUnit) : Bool := scanGroupNameLoop false source

section

variable (context : ParseContext)

/-! ## Escapes -/

/-- A decimal escape past the capture count, at its first digit. -/
def readPastCaptures (start : ℕ) : Read Atom := do
  let character ← unitAt context 0
  if character.any (between '8' '9') then
    advance 1
    pure (.character (character.getD 0).toNat (← spanFrom start))
  else
    let value ← readLegacyOctalEscape context
    pure (.character value (← spanFrom start))

/-- The branch of `parseAtomEscape` for a decimal escape. -/
def parseDecimalEscape (start : ℕ) : Parse Atom := do
  let digitStart ← reading get
  let digits ← reading (readDecimalDigits context)
  let location ← reading (spanFrom start)
  if context.annexB && context.captureCount < decimalValue digits then
    reading (set digitStart)
    reading (readPastCaptures context start)
  else
    modify fun state =>
      { state with backreferences := state.backreferences ++ [⟨decimalValue digits, location⟩] }
    pure (.backreference (decimalValue digits) location)

/-- The branch of `parseAtomEscape` for `\k`. -/
def parseNamedEscape (start : ℕ) : Parse Atom := do
  reading (advance 1)
  if !context.unicodeMode && !context.groupNameDeclared then
    let location ← reading (spanFrom start)
    if context.annexB then pure (.character 0x6b location)
    else
      fail .unsupported
        (annexBMessage "A named backreference in a pattern that declares no group name") location
  else
    let name ← reading (readGroupName context start)
    let location ← reading (spanFrom start)
    modify fun state => { state with namedReferences := state.namedReferences ++ [⟨name, location⟩] }
    pure (.namedBackreference [] name location)

/-- The other escapes of `parseAtomEscape`. -/
def readAtomEscape (start : ℕ) : Read Atom := do
  match ← readClassEscape context start with
  | some (negated, escapeSet, span) => pure (.classEscape negated escapeSet span)
  | none =>
    match ← readUnicodePropertyEscape context start with
    | some escape => pure (.unicodeProperty escape)
    | none =>
      -- the span of the character ends before its escape, as the source's object is filled in order
      let span ← spanFrom start
      let value ← readCharacterEscape context start false
      pure (.character value span)

def parseAtomEscape (start : ℕ) : Parse Atom := do
  let character ← reading (unitAt context 0)
  if character.any (between '1' '9') then parseDecimalEscape context start
  else if isCharacter character 'k' then parseNamedEscape context start
  else reading (readAtomEscape context start)

/-! ## Groups -/

def expectGroupEnd (start : ℕ) : Read Unit := do
  if !(← eat context ")") then fail .invalid "A group is unterminated." (← spanFrom start)
  else pure ()

/-- The records of one more capture. -/
def ParseState.declare (state : ParseState) (name : Option String) (location : Span) : ParseState :=
  { state with
    captures := state.captures ++ [⟨state.captures.length + 1, name, location⟩]
    namedGroups := match name with
      | none => state.namedGroups
      | some name => state.namedGroups ++ [⟨name, state.path, location⟩] }

def declareCapture (start : ℕ) (name : Option String) : Parse ℕ := do
  let state ← get
  let location ← reading (spanFrom start)
  if context.limits.capturingGroups ≤ state.captures.length then
    fail .limit "A pattern declares too many capturing groups." location
  else
    set (state.declare name location)
    pure (state.captures.length + 1)

/-- The flags of a modifier group, with its colon. -/
def readModifiers (start : ℕ) : Read (List ModifierFlag × List ModifierFlag) := do
  let enabled ← readModifierFlags context start
  let disabled ← if ← eat context "-" then readModifierFlags context start else pure []
  if !(← eat context ":") then
    let index ← get
    fail .invalid "This group prefix is not a valid group." ⟨start, index + 1⟩
  else
    let location ← spanFrom start
    if enabled.isEmpty && disabled.isEmpty then
      fail .invalid "A modifier group names no flag." location
    else if enabled.any disabled.contains then
      fail .invalid "A modifier group both adds and removes a flag." location
    else if !admits context .modifiers then
      fail .unsupported "An inline modifier group is not admitted yet." location
    else pure (enabled, disabled)

/-- What a group holds, up to its end, with its span. -/
def parseGroupBody (nested : Parse Disjunction) (start : ℕ) : Parse (Disjunction × Span) := do
  let body ← nested
  reading (expectGroupEnd context start)
  pure (body, ← reading (spanFrom start))

/-- A capturing group from its declaration on. -/
def parseCapturingGroup (nested : Parse Disjunction) (start : ℕ) (name : Option String) :
    Parse Atom := do
  let capture ← declareCapture context start name
  let (body, span) ← parseGroupBody context nested start
  pure (.capturingGroup body capture span)

def parseGroup (nested : Parse Disjunction) : Parse Atom := do
  let start ← reading get
  reading (advance 1)
  if ← reading (eat context "?") then
    if ← reading (eat context ":") then
      let (body, span) ← parseGroupBody context nested start
      pure (.group body span)
    else if isCharacter (← reading (unitAt context 0)) '<' then
      let name ← reading (readGroupName context start)
      parseCapturingGroup context nested start (some name)
    else
      let (enabled, disabled) ← reading (readModifiers context start)
      let (body, span) ← parseGroupBody context nested start
      pure (.modifierGroup body disabled enabled span)
  else parseCapturingGroup context nested start none

/-! ## Terms -/

/-- The characters that stand for themselves, in `parseAtom`. -/
def readPatternCharacter : Read Atom := do
  let start ← get
  let character ← unitAt context 0
  let location : Span := ⟨start, start + 1⟩
  if isCharacter character '*' || isCharacter character '+' || isCharacter character '?' then
    fail .invalid "A quantifier has no atom to repeat." location
  else if isCharacter character '\x7b' && (← bracedQuantifierFollows context) then
    fail .invalid "A quantifier has no atom to repeat." location
  else if isCharacter character '\x7b' && !context.annexB then
    refuseAnnexB context "An unescaped brace is not a pattern character." "An unescaped brace"
      location
  else if (isCharacter character ']' || isCharacter character '\x7d') && !context.annexB then
    refuseAnnexB context "This character must be escaped." "This unescaped character" location
  else
    let (value, span) ← readCharacter context
    pure (.character value span)

def parseAtom (budget : ℕ) (nested : Parse Disjunction) : Parse Atom := do
  let start ← reading get
  let character ← reading (unitAt context 0)
  if isCharacter character '.' then
    reading (advance 1)
    pure (.dot (← reading (spanFrom start)))
  else if isCharacter character '(' then parseGroup context nested
  else if isCharacter character '[' then reading (parseCharacterClass context budget)
  else if isCharacter character '\\' then
    reading (advance 1)
    parseAtomEscape context start
  else reading (readPatternCharacter context)

/-- A lookaround assertion. -/
structure Lookaround where
  body : Disjunction
  direction : LookaroundDirection
  negated : Bool
  span : Span

def Lookaround.term (lookaround : Lookaround) : Term :=
  .lookaround lookaround.body lookaround.direction lookaround.negated lookaround.span

/-- The introducer of a lookaround: its direction, whether it is negated, and its length. -/
def lookaroundIntroducer : Read (Option (LookaroundDirection × Bool × ℕ)) := do
  if ← follows context "(?<=" then pure (some (.behind, false, 4))
  else if ← follows context "(?<!" then pure (some (.behind, true, 4))
  else if ← follows context "(?=" then pure (some (.ahead, false, 3))
  else if ← follows context "(?!" then pure (some (.ahead, true, 3))
  else pure none

def parseLookaround (nested : Parse Disjunction) : Parse (Option Lookaround) := do
  let start ← reading get
  match ← reading (lookaroundIntroducer context) with
  | none => pure none
  | some (direction, negated, length) =>
    reading (advance length)
    let (body, span) ← parseGroupBody context nested start
    pure (some ⟨body, direction, negated, span⟩)

/-- Whether a term is a lookahead. -/
def isLookahead : Term → Bool
  | .lookaround _ .ahead _ _ => true
  | _ => false

/-- `rejectQuantifier`: an assertion that is not quantified. -/
def rejectQuantifier (term : Term) : Read Term := do
  let index ← get
  let character ← unitAt context 0
  if isCharacter character '*' || isCharacter character '+' || isCharacter character '?' ||
      (isCharacter character '\x7b' && (← bracedQuantifierFollows context)) then
    if !isLookahead term then
      fail .invalid "An assertion cannot be quantified." ⟨index, index + 1⟩
    else
      refuseAnnexB context "An assertion cannot be quantified." "A quantified lookahead"
        ⟨index, index + 1⟩
  else pure term

/-- `quantifyLookahead`: a quantified lookahead is a group around it. -/
def quantifyLookahead (lookahead : Lookaround) : Read Term := do
  match ← parseQuantifier context with
  | none => pure lookahead.term
  | some quantifier =>
    let location := lookahead.span
    pure (.quantified (.group (.mk [.mk [lookahead.term] location]) location) quantifier
      (← spanFrom location.start))

/-- The assertions of one character or of an escape. -/
def readAssertion : Read (Option AssertionKind) := do
  let character ← unitAt context 0
  let next ← unitAt context 1
  if isCharacter character '^' || isCharacter character '$' then
    advance 1
    pure (some (if isCharacter character '^' then .start else .finish))
  else if isCharacter character '\\' && (isCharacter next 'b' || isCharacter next 'B') then
    advance 2
    pure (some (if isCharacter next 'B' then .nonWordBoundary else .wordBoundary))
  else pure none

/-- An atom with its quantifier. -/
def finishTerm (start : ℕ) (atom : Atom) : Read Term := do
  match ← parseQuantifier context with
  | none => pure (.atom atom)
  | some quantifier => pure (.quantified atom quantifier (← spanFrom start))

def parseTerm (budget : ℕ) (nested : Parse Disjunction) : Parse Term := do
  let start ← reading get
  match ← parseLookaround context nested with
  | some lookaround =>
    if context.annexB && lookaround.direction = .ahead then
      reading (quantifyLookahead context lookaround)
    else reading (rejectQuantifier context lookaround.term)
  | none =>
    match ← reading (readAssertion context) with
    | some assertion =>
      let span ← reading (spanFrom start)
      reading (rejectQuantifier context (.assertion assertion span))
    | none =>
      let atom ← parseAtom context budget nested
      reading (finishTerm context start atom)

/-! ## Alternatives -/

/-- The loop of `parseAlternative`. -/
def parseTerms (budget : ℕ) (nested : Parse Disjunction) : (rounds : ℕ) → (terms : List Term) →
    Parse (List Term)
  | 0, terms => pure terms
  | rounds + 1, terms => do
    let character ← reading (unitAt context 0)
    if (← reading (done context)) || isCharacter character '|' || isCharacter character ')' then
      pure terms
    else
      let term ← parseTerm context budget nested
      parseTerms budget nested rounds (terms ++ [term])

def parseAlternative (budget : ℕ) (nested : Parse Disjunction) : Parse Alternative := do
  let start ← reading get
  let terms ← parseTerms context budget nested (← reading (roundsLeft context)) []
  pure (.mk terms (← reading (spanFrom start)))

/-- The loop of `parseDisjunction`, from the alternative of an index on. -/
def parseAlternatives (budget : ℕ) (nested : Parse Disjunction) (disjunction : ℕ) :
    (rounds : ℕ) → (index : ℕ) → (alternatives : List Alternative) → Parse (List Alternative)
  | 0, _, alternatives => pure alternatives
  | rounds + 1, index, alternatives => do
    modify fun state => { state with path := state.path ++ [⟨index, disjunction⟩] }
    let alternative ← parseAlternative context budget nested
    modify fun state => { state with path := state.path.dropLast }
    if ← reading (eat context "|") then
      parseAlternatives budget nested disjunction rounds (index + 1) (alternatives ++ [alternative])
    else pure (alternatives ++ [alternative])

/-- `parseDisjunction`, with what is left of the nesting limit. -/
def parseDisjunction : (budget : ℕ) → Parse Disjunction
  | 0 => do
    let start ← reading get
    fail .limit "A pattern nests above the reviewed depth limit." ⟨start, start⟩
  | budget + 1 => do
    let disjunction := (← get).disjunctionCount
    modify fun state => { state with disjunctionCount := disjunction + 1 }
    let alternatives ← parseAlternatives context budget (parseDisjunction budget) disjunction
      (← reading (roundsLeft context)) 0 []
    pure (.mk alternatives)

/-! ## Validation -/

/-- Whether two groups with one name can both participate in a match. -/
def mightBothParticipate : (first second : List AlternativePath) → Bool
  | left :: first, right :: second =>
    if left.disjunction ≠ right.disjunction then true
    else if left.alternative ≠ right.alternative then false
    else mightBothParticipate first second
  | _, _ => true

/-- The order of two alternative paths. -/
def comparePaths : (first second : List AlternativePath) → ℤ
  | left :: first, right :: second =>
    if left.disjunction ≠ right.disjunction then (left.disjunction : ℤ) - right.disjunction
    else if left.alternative ≠ right.alternative then (left.alternative : ℤ) - right.alternative
    else comparePaths first second
  | first, second => (first.length : ℤ) - second.length

/-- The groups of one name in the order of their paths. -/
def orderedGroups (named : List NamedGroupRecord) : List NamedGroupRecord :=
  named.insertionSort fun first second => comparePaths first.path second.path ≤ 0

/-- The error about two neighbours. -/
def duplicateError (earlier later : NamedGroupRecord) : PatternError :=
  let reported := if earlier.span.start ≤ later.span.start then later else earlier
  ⟨.invalid, "This group name repeats one that can participate in the same match.", .pattern,
    reported.span⟩

/-- The scan of neighbours. -/
def neighbourErrors : (ordered : List NamedGroupRecord) → List PatternError
  | earlier :: later :: ordered =>
    if mightBothParticipate earlier.path later.path then
      duplicateError earlier later :: neighbourErrors (later :: ordered)
    else neighbourErrors (later :: ordered)
  | _ => []

/-- The errors about the groups of one name. -/
def nameErrors (groups : List NamedGroupRecord) (name : String) : List PatternError :=
  let named := groups.filter fun group => group.name = name
  if named.length < 2 then [] else neighbourErrors (orderedGroups named)

/-- `duplicateNameErrors`, with the names in the order of their first groups. -/
def duplicateNameErrors (groups : List NamedGroupRecord) : List PatternError :=
  (groups.map (·.name)).eraseDups.flatMap (nameErrors groups)

/-- The captures of a name. -/
def ParseState.indicesOf (state : ParseState) (name : String) : List ℕ :=
  (state.captures.filter fun capture => capture.name = some name).map (·.index)

/-- `validate` -/
def validate (state : ParseState) : List PatternError :=
  let backreferences := state.backreferences.filter fun reference =>
    state.captures.length < reference.index
  let undeclared := state.namedReferences.filter fun reference =>
    (state.indicesOf reference.name).isEmpty
  let errors := backreferences.map (fun reference =>
      annexBError context "This backreference names no capturing group."
        "A backreference that names no capturing group" reference.span) ++
    duplicateNameErrors state.namedGroups ++
    undeclared.map fun reference =>
      ⟨.invalid, "This named backreference names no capturing group.", .pattern, reference.span⟩
  errors.insertionSort fun first second => first.span.start ≤ second.span.start

end

mutual

/-- The indices of every named reference, which the source fills into the list its nodes share. -/
def resolveAtom (indices : String → List ℕ) : Atom → Atom
  | .capturingGroup body index span => .capturingGroup (resolveDisjunction indices body) index span
  | .group body span => .group (resolveDisjunction indices body) span
  | .modifierGroup body disabled enabled span =>
    .modifierGroup (resolveDisjunction indices body) disabled enabled span
  | .namedBackreference _ name span => .namedBackreference (indices name) name span
  | atom => atom

def resolveTerm (indices : String → List ℕ) : Term → Term
  | .atom atom => .atom (resolveAtom indices atom)
  | .assertion kind span => .assertion kind span
  | .lookaround body direction negated span =>
    .lookaround (resolveDisjunction indices body) direction negated span
  | .quantified atom quantifier span => .quantified (resolveAtom indices atom) quantifier span

def resolveTerms (indices : String → List ℕ) : List Term → List Term
  | [] => []
  | term :: terms => resolveTerm indices term :: resolveTerms indices terms

def resolveAlternative (indices : String → List ℕ) : Alternative → Alternative
  | .mk terms span => .mk (resolveTerms indices terms) span

def resolveAlternatives (indices : String → List ℕ) : List Alternative → List Alternative
  | [] => []
  | alternative :: alternatives =>
    resolveAlternative indices alternative :: resolveAlternatives indices alternatives

def resolveDisjunction (indices : String → List ℕ) : Disjunction → Disjunction
  | .mk alternatives => .mk (resolveAlternatives indices alternatives)

end

/-! ## Patterns -/

/-- The loop of `parseFlags`. -/
def parseFlagsLoop : (text : List CodeUnit) → (index : ℕ) → (seen : List CodeUnit) →
    Except PatternError (List CodeUnit)
  | [], _, seen => .ok seen
  | character :: text, index, seen =>
    if !(units "dgimsuvy").contains character then
      .error ⟨.invalid, "This regular expression flag is not defined.", .flags, ⟨index, index + 1⟩⟩
    else if seen.contains character then
      .error ⟨.invalid, "This regular expression flag is repeated.", .flags, ⟨index, index + 1⟩⟩
    else parseFlagsLoop text (index + 1) (seen ++ [character])

def parseFlags (text : List CodeUnit) : Except PatternError Flags := do
  let seen ← parseFlagsLoop text 0 []
  let has := fun character => seen.contains (codeUnit character)
  if has 'u' && has 'v' then
    .error ⟨.invalid, "The u and v flags cannot be combined.", .flags, ⟨0, text.length⟩⟩
  else
    pure { dotAll := has 's', isGlobal := has 'g', hasIndices := has 'd', ignoreCase := has 'i',
           multiline := has 'm', sticky := has 'y', text := asciiText text, unicode := has 'u',
           unicodeSets := has 'v' }

/-- One pattern text and flag text. -/
structure PatternInput where
  source : List CodeUnit
  flags : List CodeUnit
  annexB : Bool
  extensions : PatternExtensions
  limits : PatternLimits

def clampError (error : PatternError) (input : PatternInput) : PatternError :=
  let length := if error.errorSection = .flags then input.flags.length else input.source.length
  let start := min error.span.start length
  let finish := min (max error.span.finish start) length
  { error with span := ⟨start, finish⟩ }

/-- What the parse of an input does not change. -/
def patternContext (input : PatternInput) (flags : Flags) : ParseContext :=
  let unicodeMode := regExpUnicodeMode flags
  let annexB := input.annexB && !unicodeMode
  { annexB := annexB
    captureCount := if annexB then countCapturingGroups input.source else 0
    extensions := input.extensions
    flags := flags
    groupNameDeclared := scanForGroupName input.source
    limits := input.limits
    source := input.source
    unicodeMode := unicodeMode }

def initialState : ParseState := ⟨[], [], [], [], [], 0, 0⟩

/-- The parse of the whole text. -/
def parseWhole (context : ParseContext) : Parse Disjunction := do
  let body ← parseDisjunction context context.limits.nestingDepth
  if !(← reading (done context)) then
    let index ← reading get
    fail .invalid "This character must be escaped." ⟨index, index + 1⟩
  else pure body

/-- The pattern of a parse that ends well. -/
def finishPattern (context : ParseContext) (body : Disjunction) (state : ParseState) :
    Except (List PatternError) Pattern :=
  let errors := validate context state
  if errors ≠ [] then .error errors
  else
    .ok { body := resolveDisjunction state.indicesOf body
          captures := state.captures
          flags := context.flags
          groupNames := (state.captures.filterMap (·.name)).eraseDups
          source := context.source }

/-- `parseRegExpPattern` -/
def parseRegExpPattern (input : PatternInput) : Except (List PatternError) Pattern :=
  let clamped := fun errors : List PatternError => errors.map fun error => clampError error input
  if input.limits.sourceLength < input.source.length then
    .error (clamped [⟨.limit, "A pattern is longer than the reviewed limit.", .pattern,
      ⟨0, input.source.length⟩⟩])
  else
    match parseFlags input.flags with
    | .error error => .error (clamped [error])
    | .ok flags =>
      match parseWhole (patternContext input flags) initialState with
      | .error error => .error (clamped [error])
      | .ok (body, state) =>
        (finishPattern (patternContext input flags) body state).mapError clamped

end Oseo.RegExpParsing
