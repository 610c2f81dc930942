import Oseo.RegExpMatcher.Program
import Oseo.UriCoding.UriDecoding

/-!
# Reading a pattern

The functions of `regexp-parse.ts` that only move the cursor: characters, digits, escapes and group
names. The readonly fields of the source's `ParseState` are `ParseContext`, and the cursor is the
state of a `Read`.

* a unit outside of the text is `none`, as is a value that is -1 or undefined;
* a loop has as many rounds as there are units left.
-/

namespace Oseo.RegExpParsing

open Oseo.RegExpMatcher

section

open Oseo.UriCoding (codeUnit between uriHexDigit)

/-- The boundaries of one parse. -/
structure PatternLimits where
  capturingGroups : ℕ
  nestingDepth : ℕ
  quantifierBound : ℕ
  sourceLength : ℕ

/-- The constructs that a caller may admit. -/
inductive ExtensionPoint where
  | classSetNotation
  | modifiers
  | unicodePropertyEscapes
deriving DecidableEq

/-- What a caller supplies. -/
structure PatternExtensions where
  admitted : List ExtensionPoint
  identifierPart : Option (ℕ → Bool)
  identifierStart : Option (ℕ → Bool)
  unicodeProperty : Option (UnicodePropertyEscape → Bool)

/-- What a parse does not change. -/
structure ParseContext where
  annexB : Bool
  captureCount : ℕ
  extensions : PatternExtensions
  flags : Flags
  groupNameDeclared : Bool
  limits : PatternLimits
  source : List CodeUnit
  unicodeMode : Bool

/-- A function that moves the cursor. -/
abbrev Read := StateT ℕ (Except PatternError)

/-- The units of a text of the source. -/
def units (text : String) : List CodeUnit := text.toList.map codeUnit

/-- Characters the grammar reserves. -/
def syntaxCharacters : List CodeUnit := units "^$\\.*+?()[]\x7b\x7d|"

/-- The ControlEscape spellings. -/
def controlEscapes : List (CodeUnit × ℕ) :=
  [(codeUnit 'f', 0x0c), (codeUnit 'n', 0x0a), (codeUnit 'r', 0x0d), (codeUnit 't', 0x09),
    (codeUnit 'v', 0x0b)]

/-- Modifier flags of one inline modifier group. -/
def modifierFlags : List (CodeUnit × ModifierFlag) :=
  [(codeUnit 'i', .i), (codeUnit 'm', .m), (codeUnit 's', .s)]

/-- Binary properties of strings. -/
def unicodeStringProperties : List String :=
  ["Basic_Emoji", "Emoji_Keycap_Sequence", "RGI_Emoji", "RGI_Emoji_Flag_Sequence",
    "RGI_Emoji_Modifier_Sequence", "RGI_Emoji_Tag_Sequence", "RGI_Emoji_ZWJ_Sequence"]

section

variable (context : ParseContext)

/-! ## Errors -/

def fail {σ α : Type} (kind : ErrorKind) (message : String) (location : Span) :
    StateT σ (Except PatternError) α :=
  throw ⟨kind, message, .pattern, location⟩

def annexBMessage (subject : String) : String :=
  subject ++ " is admitted only by Annex B, which this parse excludes."

def annexBError (invalidMessage subject : String) (location : Span) : PatternError :=
  if context.unicodeMode then ⟨.invalid, invalidMessage, .pattern, location⟩
  else ⟨.unsupported, annexBMessage subject, .pattern, location⟩

def refuseAnnexB {σ α : Type} (invalidMessage subject : String) (location : Span) :
    StateT σ (Except PatternError) α :=
  throw (annexBError context invalidMessage subject location)

def admits (point : ExtensionPoint) : Bool := context.extensions.admitted.contains point

/-! ## Characters -/

/-- `at` -/
def unitAt (offset : ℕ) : Read (Option CodeUnit) := do
  let index ← get
  pure context.source[index + offset]?

/-- `source.startsWith` at the cursor. -/
def follows (text : String) : Read Bool := do
  let index ← get
  pure ((units text).isPrefixOf (context.source.drop index))

def done : Read Bool := do
  let index ← get
  pure (context.source.length ≤ index)

def advance (count : ℕ) : Read Unit := modify (· + count)

def eat (text : String) : Read Bool := do
  if ← follows context text then
    advance text.length
    pure true
  else pure false

/-- The span from a start to the cursor. -/
def spanFrom (start : ℕ) : Read Span := do
  let index ← get
  pure ⟨start, index⟩

/-- A character is a code point under `u` or `v`, otherwise a code unit; with its span. -/
def readCharacter : Read (ℕ × Span) := do
  let start ← get
  let value := (characterAt context.source start context.unicodeMode).getD 0
  advance (if 0xffff < value then 2 else 1)
  pure (value, ← spanFrom start)

def isDecimalDigit (character : Option CodeUnit) : Bool := character.any (between '0' '9')

def isHexDigit (character : Option CodeUnit) : Bool :=
  character.any fun unit => between '0' '9' unit || between 'a' 'f' unit || between 'A' 'F' unit

def isAsciiLetter (character : Option CodeUnit) : Bool :=
  character.any fun unit => between 'a' 'z' unit || between 'A' 'Z' unit

/-- A character is a certain one. -/
def isCharacter (character : Option CodeUnit) (expected : Char) : Bool :=
  character = some (codeUnit expected)

/-- The units that satisfy a test, which the cursor passes. -/
def readWhile (test : Option CodeUnit → Bool) : Read (List CodeUnit) := do
  let index ← get
  let taken := (context.source.drop index).takeWhile fun unit => test (some unit)
  advance taken.length
  pure taken

def readDecimalDigits : Read (List CodeUnit) := readWhile context isDecimalDigit

/-- The number that digits spell. -/
def decimalValue (digits : List CodeUnit) : ℕ :=
  digits.foldl (fun value digit => value * 10 + (digit.toNat - '0'.toNat)) 0

def hexValue (digits : List CodeUnit) : ℕ :=
  digits.foldl (fun value digit => value * 16 + uriHexDigit digit) 0

/-- `identifierProperty`, at the start of a name or after it. -/
def identifierProperty (codePoint : ℕ) (isStart : Bool) (subject : String) (location : Span) :
    Read Bool :=
  if codePoint < 0x80 then
    let unit : CodeUnit := .ofNat codePoint
    if isAsciiLetter (some unit) then pure true
    else if isStart then pure false
    else pure (between '0' '9' unit || unit = codeUnit '_')
  else
    match if isStart then context.extensions.identifierStart else context.extensions.identifierPart with
    | none =>
      fail .unsupported (subject ++ " outside ASCII needs Unicode identifier data that is not linked.")
        location
    | some classify => pure (classify codePoint)

def readHexValue (digits : ℕ) : Read (Option ℕ) := do
  let start ← get
  let text := (context.source.drop start).take digits
  if text.length = digits && text.all (isHexDigit ∘ some) then
    advance digits
    pure (some (hexValue text))
  else pure none

/-! ## Escapes -/

/-- `readUnicodeEscape`: a `\u` escape after its `u`. -/
def readUnicodeEscape (unicodeSyntax : Bool) (start : ℕ) : Read ℕ := do
  if unicodeSyntax && isCharacter (← unitAt context 0) '\x7b' then
    advance 1
    let digits ← readWhile context isHexDigit
    if digits.isEmpty || !isCharacter (← unitAt context 0) '\x7d' then
      fail .invalid "A braced Unicode escape is incomplete." (← spanFrom start)
    else
      advance 1
      if 0x10ffff < hexValue digits then
        fail .invalid "A Unicode escape is above the code point range." (← spanFrom start)
      else pure (hexValue digits)
  else
    match ← readHexValue context 4 with
    | none =>
      let location ← spanFrom start
      if unicodeSyntax then
        fail .invalid "A Unicode escape needs four hexadecimal digits." location
      else if context.annexB then pure 0x75
      else
        refuseAnnexB context "A Unicode escape needs four hexadecimal digits."
          "An incomplete Unicode escape" location
    | some value =>
      if unicodeSyntax && isLead value && (← follows context "\\u") then
        let resume ← get
        advance 2
        let trail ← readHexValue context 4
        if trail.any isTrail then pure (pairCodePoint value (trail.getD 0))
        else
          set resume
          pure value
      else pure value

def isOctalDigit (character : Option CodeUnit) : Bool := character.any (between '0' '7')

/-- The value of a digit at the cursor. -/
def digitAt (character : Option CodeUnit) : ℕ := decimalValue character.toList

/-- `readLegacyOctalEscape`: a LegacyOctalEscapeSequence at its first digit. -/
def readLegacyOctalEscape : Read ℕ := do
  let first ← unitAt context 0
  advance 1
  let second ← unitAt context 0
  if !isOctalDigit second then pure (digitAt first)
  else
    advance 1
    let third ← unitAt context 0
    if 3 < digitAt first || !isOctalDigit third then pure (digitAt first * 8 + digitAt second)
    else
      advance 1
      pure ((digitAt first * 8 + digitAt second) * 8 + digitAt third)

/-- The branch of `readCharacterEscape` for `\c`. -/
def readControlLetter (start : ℕ) (inClass : Bool) : Read ℕ := do
  let index ← get
  let letter ← unitAt context 1
  if isAsciiLetter letter then
    advance 2
    pure ((letter.getD 0).toNat % 32)
  else if context.annexB then
    if inClass && (isDecimalDigit letter || isCharacter letter '_') then
      advance 2
      pure ((letter.getD 0).toNat % 32)
    else pure 0x5c
  else
    refuseAnnexB context "A control escape needs an ASCII letter."
      "A control escape without an ASCII letter" ⟨start, index + 1⟩

/-- The end of `readCharacterEscape`: an identity escape. -/
def readIdentityEscape (start : ℕ) : Read ℕ := do
  let (escaped, _) ← readCharacter context
  let location ← spanFrom start
  if context.unicodeMode then
    if !(escaped < 0x80 && syntaxCharacters.contains (.ofNat escaped)) && escaped ≠ 0x2f then
      fail .invalid "This identity escape is not allowed." location
    else pure escaped
  else if escaped = 0x6b && context.groupNameDeclared then
    fail .invalid "This identity escape is not allowed." location
  else if context.annexB then pure escaped
  else if ← identifierProperty context escaped false "An identity escape" location then
    refuseAnnexB context "This identity escape is not allowed." "This identity escape" location
  else pure escaped

/-- `readCharacterEscape`: a character escape after its backslash. -/
def readCharacterEscape (start : ℕ) (inClass : Bool) : Read ℕ := do
  let character ← unitAt context 0
  match character with
  | none => fail .invalid "A pattern cannot end with a backslash." (← spanFrom start)
  | some unit =>
    match controlEscapes.lookup unit with
    | some control =>
      advance 1
      pure control
    | none =>
      if isCharacter character 'c' then readControlLetter context start inClass
      else if context.annexB && isOctalDigit character then readLegacyOctalEscape context
      else if isCharacter character '0' then
        if isDecimalDigit (← unitAt context 1) then
          let index ← get
          refuseAnnexB context "A legacy octal escape is outside the candidate edition."
            "A legacy octal escape" ⟨start, index + 2⟩
        else
          advance 1
          pure 0
      else if isCharacter character 'x' then
        advance 1
        match ← readHexValue context 2 with
        | some value => pure value
        | none =>
          if context.annexB then pure 0x78
          else
            refuseAnnexB context "A hexadecimal escape needs two hexadecimal digits."
              "An incomplete hexadecimal escape" (← spanFrom start)
      else if isCharacter character 'u' then
        advance 1
        readUnicodeEscape context context.unicodeMode start
      else readIdentityEscape context start

/-- The CharacterClassEscape spellings. -/
def classEscapeSets : List (CodeUnit × Bool × ClassEscapeSet) :=
  [(codeUnit 'D', true, .digit), (codeUnit 'S', true, .space), (codeUnit 'W', true, .word),
    (codeUnit 'd', false, .digit), (codeUnit 's', false, .space), (codeUnit 'w', false, .word)]

def readClassEscape (start : ℕ) : Read (Option (Bool × ClassEscapeSet × Span)) := do
  match (← unitAt context 0).bind fun unit => classEscapeSets.lookup unit with
  | none => pure none
  | some (negated, escapeSet) =>
    advance 1
    pure (some (negated, escapeSet, ← spanFrom start))

/-- A text of ASCII characters. -/
def asciiText (text : List CodeUnit) : String :=
  String.ofList (text.map fun unit => Char.ofNat unit.toNat)

def propertyNameCharacters (text : List CodeUnit) : Bool :=
  !text.isEmpty && text.all fun unit => isAsciiLetter (some unit) || unit = codeUnit '_'

def propertyValueCharacters (text : List CodeUnit) : Bool :=
  !text.isEmpty && text.all fun unit =>
    isAsciiLetter (some unit) || unit = codeUnit '_' || between '0' '9' unit

/-- The end of `readUnicodePropertyEscape`: whether the escape is admitted and defined. -/
def admitUnicodeProperty (escape : UnicodePropertyEscape) : Read UnicodePropertyEscape :=
  if !admits context .unicodePropertyEscapes then
    fail .unsupported "A Unicode property escape is not admitted yet." escape.span
  else
    match context.extensions.unicodeProperty with
    | none =>
      fail .unsupported "A Unicode property escape needs property data that is not linked." escape.span
    | some resolve =>
      let ofStrings := escape.value.isNone && unicodeStringProperties.contains escape.property
      if !context.flags.unicodeSets && ofStrings then
        fail .invalid "A Unicode property of strings requires the v flag." escape.span
      else if !resolve escape then
        if context.flags.unicodeSets && !escape.negated && ofStrings then
          fail .unsupported "A Unicode property of strings is not admitted yet." escape.span
        else fail .invalid "This Unicode property is not defined." escape.span
      else pure escape

/-- `readUnicodePropertyEscape`: a `\p` or `\P` escape after its backslash. -/
def readUnicodePropertyEscape (start : ℕ) : Read (Option UnicodePropertyEscape) := do
  let character ← unitAt context 0
  if !context.unicodeMode || !(isCharacter character 'p' || isCharacter character 'P') then pure none
  else
    advance 1
    if !(← eat context "\x7b") then
      fail .invalid "A Unicode property escape needs a braced name." (← spanFrom start)
    else
      let first ← readWhile context fun unit => !isCharacter unit '\x7d' && !isCharacter unit '='
      let second ←
        if ← eat context "=" then do
          pure (some (← readWhile context fun unit => !isCharacter unit '\x7d'))
        else pure none
      if !(← eat context "\x7d") then
        fail .invalid "A Unicode property escape is unterminated." (← spanFrom start)
      else
        let location ← spanFrom start
        let named := match second with
          | none => propertyValueCharacters first
          | some value => propertyNameCharacters first && propertyValueCharacters value
        if !named then
          fail .invalid "A Unicode property escape names nothing valid." location
        else
          some <$> admitUnicodeProperty context
            ⟨isCharacter character 'P', asciiText first, location, second.map asciiText⟩

/-! ## Names and modifiers -/

/-- The code point that a group name spells next, with where it starts. -/
def readNameCodePoint : Read (ℕ × ℕ) := do
  let characterStart ← get
  if ← eat context "\\" then
    if !(← eat context "u") then
      fail .invalid "A group name escape must be a Unicode escape." (← spanFrom characterStart)
    else pure (← readUnicodeEscape context true characterStart, characterStart)
  else
    let codePoint := (characterAt context.source characterStart true).getD 0
    advance (if 0xffff < codePoint then 2 else 1)
    pure (codePoint, characterStart)

/-- The loop of `readGroupName`. -/
def readGroupNameLoop : (rounds : ℕ) → (name : List ℕ) → Read (List ℕ)
  | 0, name => pure name
  | rounds + 1, name => do
    if (← done context) || isCharacter (← unitAt context 0) '>' then pure name
    else
      let (codePoint, characterStart) ← readNameCodePoint context
      let location ← spanFrom characterStart
      let dollarOrLow : Bool := codePoint = 0x24 || codePoint = 0x5f
      let joiner : Bool := !name.isEmpty && (codePoint = 0x200c || codePoint = 0x200d)
      let admitted ←
        if dollarOrLow || joiner then pure true
        else identifierProperty context codePoint name.isEmpty "A group name" location
      if !admitted then
        fail .invalid "This character is not allowed in a group name." location
      else readGroupNameLoop rounds (name ++ [codePoint])

/-- The rounds a loop may need from the cursor on. -/
def roundsLeft : Read ℕ := do
  let index ← get
  pure (context.source.length - index + 1)

/-- `readGroupName`: a `<name>` group specifier after its introducer. -/
def readGroupName (start : ℕ) : Read String := do
  if !(← eat context "<") then
    fail .invalid "A group name must be enclosed in angle brackets." (← spanFrom start)
  else
    let name ← readGroupNameLoop context (← roundsLeft context) []
    if name.isEmpty || !(← eat context ">") then
      fail .invalid "A group name is incomplete." (← spanFrom start)
    else pure (String.ofList (name.map Char.ofNat))

/-- The loop of `readModifierFlags`. -/
def readModifierFlagsLoop (start : ℕ) : (rounds : ℕ) → (selected : List ModifierFlag) →
    Read (List ModifierFlag)
  | 0, selected => pure selected
  | rounds + 1, selected => do
    match (← unitAt context 0).bind fun unit => modifierFlags.lookup unit with
    | none => pure selected
    | some flag =>
      if selected.contains flag then
        let index ← get
        fail .invalid "A modifier group repeats a flag." ⟨start, index + 1⟩
      else
        advance 1
        readModifierFlagsLoop start rounds (selected ++ [flag])

def readModifierFlags (start : ℕ) : Read (List ModifierFlag) := do
  readModifierFlagsLoop context start (← roundsLeft context) []

/-! ## Quantifiers -/

/-- Leading zeros of a digit string, except for its last digit. -/
def stripLeadingZeros : (digits : List CodeUnit) → List CodeUnit
  | zero :: digit :: digits =>
    if zero = codeUnit '0' then stripLeadingZeros (digit :: digits) else zero :: digit :: digits
  | digits => digits

/-- `compareDecimalDigits`: the order of two digit strings by their values. -/
def compareDecimalDigits (first second : List CodeUnit) : Ordering :=
  let left := stripLeadingZeros first
  let right := stripLeadingZeros second
  if left.length ≠ right.length then compare left.length right.length
  else if left < right then .lt
  else if right < left then .gt
  else .eq

/-- The bounds one braced quantifier spells. -/
structure QuantifierBounds where
  maximum : Option ℕ
  maximumDigits : Option (List CodeUnit)
  minimum : ℕ
  minimumDigits : List CodeUnit

/-- `readBracedQuantifier`: the body after the brace. -/
def readBracedQuantifier : Read (Option QuantifierBounds) := do
  let minimumDigits ← readDecimalDigits context
  if minimumDigits.isEmpty then pure none
  else
    let maximumDigits ←
      if ← eat context "," then do
        let written ← readDecimalDigits context
        pure (if written.isEmpty then none else some written)
      else pure (some minimumDigits)
    if !(← eat context "\x7d") then pure none
    else
      pure (some ⟨maximumDigits.map decimalValue, maximumDigits, decimalValue minimumDigits,
        minimumDigits⟩)

def validateQuantifierBounds (bounds : QuantifierBounds) (start : ℕ) : Read QuantifierBounds := do
  let location ← spanFrom start
  if bounds.maximumDigits.any fun digits =>
      compareDecimalDigits bounds.minimumDigits digits = .gt then
    fail .invalid "A quantifier's lower bound is above its upper bound." location
  else
    let limit := units (toString context.limits.quantifierBound)
    let above := fun digits => decide (compareDecimalDigits digits limit = .gt)
    if above bounds.minimumDigits || bounds.maximumDigits.any above then
      fail .limit "A quantifier bound is above the reviewed limit." location
    else pure bounds

/-- The end of `parseQuantifier`. -/
def finishQuantifier (minimum : ℕ) (maximum : Option ℕ) : Read (Option Quantifier) := do
  let lazy ← eat context "?"
  pure (some ⟨!lazy, maximum, minimum⟩)

def parseQuantifier : Read (Option Quantifier) := do
  let start ← get
  let character ← unitAt context 0
  if isCharacter character '*' then
    advance 1
    finishQuantifier context 0 none
  else if isCharacter character '+' then
    advance 1
    finishQuantifier context 1 none
  else if isCharacter character '?' then
    advance 1
    finishQuantifier context 0 (some 1)
  else if isCharacter character '\x7b' then
    advance 1
    match ← readBracedQuantifier context with
    | none =>
      set start
      if context.annexB then pure none
      else
        refuseAnnexB context "An unescaped brace is not a pattern character." "An unescaped brace"
          ⟨start, start + 1⟩
    | some braced =>
      let bounds ← validateQuantifierBounds context braced start
      finishQuantifier context bounds.minimum bounds.maximum
  else pure none

def bracedQuantifierFollows : Read Bool := do
  let resume ← get
  advance 1
  let braced ← readBracedQuantifier context
  set resume
  pure braced.isSome

end

end

/-! ## Reading character classes

The productions of `regexp-parse.ts` for character classes: a list of atoms and ranges, or under
`v` a class set, whose nesting is charged to the budget that is left of the nesting limit (the
source counts it up in `depth`).
-/

open Oseo.UriCoding (codeUnit)

/-- Characters that must be escaped inside a Unicode class set. -/
def classSetSyntaxCharacters : List CodeUnit := units "()\x7b\x7d[/-|"

/-- Punctuators reserved when two equal copies occur in a class set. -/
def classSetReservedDoublePunctuators : List CodeUnit := units "!#$%&*+,.:;<=>?@^\x60~"

section

variable (context : ParseContext)

/-! ## Atoms -/

def readClassSetCharacterEscape (start : ℕ) : Read ℕ := do
  let character ← unitAt context 0
  if context.unicodeMode && isCharacter character '-' ||
      context.flags.unicodeSets && character.any classSetReservedDoublePunctuators.contains then
    advance 1
    pure (character.getD 0).toNat
  else readCharacterEscape context start true

def parseClassAtom : Read ClassItem := do
  let start ← get
  if !(← eat context "\\") then
    let (value, span) ← readCharacter context
    pure (.character value span)
  else if isCharacter (← unitAt context 0) 'b' then
    advance 1
    pure (.character 8 (← spanFrom start))
  else
    match ← readClassEscape context start with
    | some (negated, escapeSet, span) => pure (.classEscape negated escapeSet span)
    | none =>
      match ← readUnicodePropertyEscape context start with
      | some escape => pure (.unicodeProperty escape)
      | none =>
        -- the span of the character ends before its escape, as the source's object is filled in order
        let span ← spanFrom start
        let value ← readClassSetCharacterEscape context start
        pure (.character value span)

def itemSpan : ClassItem → Span
  | .character _ span => span
  | .range _ _ span => span
  | .classEscape _ _ span => span
  | .unicodeProperty escape => escape.span

/-- `classItemValue` -/
def classItemValue : ClassItem → Option ℕ
  | .character value _ => some value
  | _ => none

/-! ## Class sets -/

def validateClassSetCharacter : Read Unit := do
  let index ← get
  let character ← unitAt context 0
  if character.isNone || isCharacter character ']' || (← follows context "&&") ||
      (← follows context "--") then
    fail .invalid "A class set operator needs an operand."
      ⟨index, min (index + 2) context.source.length⟩
  else if character.any classSetSyntaxCharacters.contains then
    fail .invalid "A class set syntax character must be escaped." ⟨index, index + 1⟩
  else if character = (← unitAt context 1) &&
      character.any classSetReservedDoublePunctuators.contains then
    fail .invalid "A doubled class set punctuator must be escaped." ⟨index, index + 2⟩
  else pure ()

/-- One character of a class string. -/
def readClassStringCharacter : Read ℕ := do
  let characterStart ← get
  if ← eat context "\\" then
    if ← eat context "b" then pure 0x08
    else readClassSetCharacterEscape context characterStart
  else
    validateClassSetCharacter context
    let (value, _) ← readCharacter context
    pure value

/-- The loop of `parseClassStringDisjunction`. -/
def parseClassStringLoop (start : ℕ) : (rounds : ℕ) → (strings : List (List ℕ)) →
    (characters : List ℕ) → Read (List (List ℕ))
  | 0, strings, _ => pure strings
  | rounds + 1, strings, characters => do
    if ← done context then
      fail .invalid "A class string disjunction is unterminated." (← spanFrom start)
    else if ← eat context "|" then parseClassStringLoop start rounds (strings ++ [characters]) []
    else if ← eat context "\x7d" then pure (strings ++ [characters])
    else
      let value ← readClassStringCharacter context
      parseClassStringLoop start rounds strings (characters ++ [value])

def parseClassStringDisjunction : Read ClassSetOperand := do
  let start ← get
  advance 3
  let strings ← parseClassStringLoop context start (← roundsLeft context) [] []
  pure (.classStrings strings (← spanFrom start))

/-- `parseClassSetOperand`, with the production for a nested class set. -/
def parseClassSetOperand (parseNested : Read ClassSetOperand) : Read ClassSetOperand := do
  if isCharacter (← unitAt context 0) '[' then parseNested
  else if ← follows context "\\q\x7b" then parseClassStringDisjunction context
  else
    validateClassSetCharacter context
    let first ← parseClassAtom context
    let after ← unitAt context 1
    match classItemValue first with
    | none => pure (.item first)
    | some low =>
      if isCharacter (← unitAt context 0) '-' && !isCharacter after '-' && !isCharacter after ']' &&
          after.isSome then
        advance 1
        if isCharacter (← unitAt context 0) '[' then
          let index ← get
          fail .invalid "A nested class set cannot be a range bound."
            ⟨(itemSpan first).start, index + 1⟩
        else
          validateClassSetCharacter context
          let second ← parseClassAtom context
          let location ← spanFrom (itemSpan first).start
          match classItemValue second with
          | some high =>
            if high < low then fail .invalid "A character class range is invalid." location
            else pure (.item (.range low high location))
          | none => fail .invalid "A character class range is invalid." location
      else pure (.item first)

mutual

/-- `classSetOperandMayContainStrings` -/
def classSetOperandMayContainStrings : ClassSetOperand → Bool
  | .classStrings strings _ => strings.any fun characters => characters.length ≠ 1
  | .item (.unicodeProperty escape) =>
    !escape.negated && escape.value.isNone && unicodeStringProperties.contains escape.property
  | .item _ => false
  | .classSet _ .union operands _ => someMayContainStrings operands
  | .classSet _ .intersection operands _ => !operands.isEmpty && allMayContainStrings operands
  | .classSet _ .subtraction operands _ => firstMayContainStrings operands

def someMayContainStrings : List ClassSetOperand → Bool
  | [] => false
  | operand :: operands => classSetOperandMayContainStrings operand || someMayContainStrings operands

def allMayContainStrings : List ClassSetOperand → Bool
  | [] => true
  | operand :: operands => classSetOperandMayContainStrings operand && allMayContainStrings operands

def firstMayContainStrings : List ClassSetOperand → Bool
  | [] => false
  | operand :: _ => classSetOperandMayContainStrings operand

end

/-- One `v`-mode class set. -/
structure UnicodeClassSet where
  negated : Bool
  operation : ClassSetOperation
  operands : List ClassSetOperand
  span : Span

def UnicodeClassSet.operand (classSet : UnicodeClassSet) : ClassSetOperand :=
  .classSet classSet.negated classSet.operation classSet.operands classSet.span

/-- The span of an operand that is a range. -/
def rangeSpan : ClassSetOperand → Option Span
  | .item (.range _ _ span) => some span
  | _ => none

/-- A range is no operand of an intersection or a subtraction. -/
def refuseRange (operation : ClassSetOperation) (operand : Option ClassSetOperand) : Read Unit :=
  match operand.bind rangeSpan with
  | some span =>
    if operation ≠ .union then
      fail .invalid "A class set range cannot be an intersection or subtraction operand." span
    else pure ()
  | none => pure ()

/-- The operator before another operand. -/
def readClassSetOperator (operation : ClassSetOperation) : Read Unit := do
  let index ← get
  match operation with
  | .union => pure ()
  | .intersection =>
    if !(← eat context "&&") then fail .invalid "A class set mixes its operators." ⟨index, index + 1⟩
    else if isCharacter (← unitAt context 0) '&' then
      fail .invalid "A class set operator needs an operand." ⟨index, index + 3⟩
    else pure ()
  | .subtraction =>
    if !(← eat context "--") then fail .invalid "A class set mixes its operators." ⟨index, index + 1⟩
    else pure ()

/-- The loop of `parseUnicodeClassSet`. -/
def parseClassSetLoop (parseNested : Read ClassSetOperand) (operation : ClassSetOperation) :
    (rounds : ℕ) → (operands : List ClassSetOperand) → Read (List ClassSetOperand)
  | 0, operands => pure operands
  | rounds + 1, operands => do
    if (← done context) || isCharacter (← unitAt context 0) ']' then pure operands
    else
      readClassSetOperator context operation
      let operand ← parseClassSetOperand context parseNested
      refuseRange operation (some operand)
      parseClassSetLoop parseNested operation rounds (operands ++ [operand])

/-- `parseUnicodeClassSet` -/
def parseUnicodeClassSet : (budget : ℕ) → Read UnicodeClassSet
  | 0 => do fail .limit "A pattern nests above the reviewed depth limit." (← spanFrom (← get))
  | budget + 1 => do
    let start ← get
    advance 1
    let negated ← eat context "^"
    let first ←
      if isCharacter (← unitAt context 0) ']' then pure []
      else do pure [← parseClassSetOperand context (UnicodeClassSet.operand <$> parseUnicodeClassSet budget)]
    let operation : ClassSetOperation ←
      if ← follows context "&&" then pure .intersection
      else if ← follows context "--" then pure .subtraction
      else pure .union
    refuseRange operation first.head?
    let operands ← parseClassSetLoop context (UnicodeClassSet.operand <$> parseUnicodeClassSet budget)
      operation (← roundsLeft context) first
    if !(← eat context "]") then
      fail .invalid "A character class is unterminated." (← spanFrom start)
    else
      let span ← spanFrom start
      let classSet : UnicodeClassSet := ⟨negated, operation, operands, span⟩
      if negated && classSetOperandMayContainStrings classSet.operand then
        fail .invalid "A negated character class may contain strings." span
      else pure classSet

/-! ## Character classes -/

/-- What one atom, or a dash and a second one, adds to a class. -/
def parseClassItems : Read (List ClassItem) := do
  let first ← parseClassAtom context
  let after ← unitAt context 1
  if isCharacter (← unitAt context 0) '-' && !isCharacter after ']' && after.isSome then
    let dash ← get
    advance 1
    let second ← parseClassAtom context
    let location ← spanFrom (itemSpan first).start
    match classItemValue first, classItemValue second with
    | some low, some high =>
      if high < low then fail .invalid "A character class range is out of order." location
      else pure [.range low high location]
    | _, _ =>
      -- a class escape at either end makes a union with the dash
      if context.annexB then pure [first, .character 0x2d ⟨dash, dash + 1⟩, second]
      else
        refuseAnnexB context "A character class range bound cannot be a class escape."
          "A class escape as a character class range bound" location
  else pure [first]

/-- The loop of `parseCharacterClass`. -/
def parseClassLoop (start : ℕ) : (rounds : ℕ) → (items : List ClassItem) → Read (List ClassItem)
  | 0, items => pure items
  | rounds + 1, items => do
    if ← done context then
      fail .invalid "A character class is unterminated." (← spanFrom start)
    else if ← eat context "]" then pure items
    else
      let more ← parseClassItems context
      parseClassLoop start rounds (items ++ more)

/-- `parseCharacterClass`, with what is left of the nesting limit. -/
def parseCharacterClass (budget : ℕ) : Read Atom := do
  let start ← get
  if context.flags.unicodeSets then
    if !admits context .classSetNotation then
      fail .unsupported "Class set notation is not admitted yet." ⟨start, start + 1⟩
    else
      let classSet ← parseUnicodeClassSet context budget
      pure (.classSet classSet.negated classSet.operation classSet.operands classSet.span)
  else
    advance 1
    let negated ← eat context "^"
    let items ← parseClassLoop context start (← roundsLeft context) []
    pure (.characterClass items negated (← spanFrom start))

end

end Oseo.RegExpParsing
