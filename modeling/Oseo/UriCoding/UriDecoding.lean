import Oseo.Library.DecimalFields
import Mathlib.Data.UInt

/-!
# The global string functions

The URI handling functions and the Annex B pair of `runtime_uri.c`. A string is its list of UTF-16
code units; the loops of the source keep an index into it, here they keep the units from that index
on. What a loop appends to the string builder is the list it returns.
-/

namespace Oseo.UriCoding

/-- One UTF-16 code unit. -/
abbrev CodeUnit := UInt16

/-- The code unit of one ASCII character of the source. -/
def codeUnit (character : Char) : CodeUnit := .ofNat character.toNat

/-- The `%` that starts every escape sequence. -/
def percent : CodeUnit := codeUnit '%'

/-- A code unit within a range of characters. -/
def between (first last : Char) (unit : CodeUnit) : Bool :=
  codeUnit first ≤ unit && unit ≤ codeUnit last

/-- The reserved units both `encodeURI` and `decodeURI` name. -/
def uriReservedUnits : List Char := ";/?:@&=+$,#".toList

/-- The marks every Encode leaves unescaped beside the ASCII word characters. -/
def uriUnreservedMarks : List Char := "-.!~*\x27()".toList

/-- The marks `escape` leaves unescaped beside the ASCII word characters. -/
def escapeMarks : List Char := "@*+-./".toList

/-- Whether a unit is one of the ASCII units a set lists. -/
def uriMember (set : List Char) (unit : CodeUnit) : Bool :=
  if unit == 0 || 0x7f < unit then false
  else set.any fun entry => codeUnit entry == unit

/-- The ASCII word characters and some marks. -/
def wordOrMark (marks : List Char) (unit : CodeUnit) : Bool :=
  between 'A' 'Z' unit || between 'a' 'z' unit || between '0' '9' unit ||
    unit == codeUnit '_' || uriMember marks unit

def uriAlwaysUnescaped (unit : CodeUnit) : Bool := wordOrMark uriUnreservedMarks unit

def uriReserved (unit : CodeUnit) : Bool := uriMember uriReservedUnits unit

def escapeUnescaped (unit : CodeUnit) : Bool := wordOrMark escapeMarks unit

/-! ## Octets -/

/-- The UTF-8 octets of a code point that is known to be a scalar value. -/
def uriUtf8Octets (codePoint : ℕ) : List UInt8 :=
  if codePoint ≤ 0x7f then [.ofNat codePoint]
  else if codePoint ≤ 0x7ff then
    [.ofNat (0xc0 ||| codePoint >>> 6), .ofNat (0x80 ||| (codePoint &&& 0x3f))]
  else if codePoint ≤ 0xffff then
    [.ofNat (0xe0 ||| codePoint >>> 12),
      .ofNat (0x80 ||| ((codePoint >>> 6) &&& 0x3f)),
      .ofNat (0x80 ||| (codePoint &&& 0x3f))]
  else
    [.ofNat (0xf0 ||| codePoint >>> 18),
      .ofNat (0x80 ||| ((codePoint >>> 12) &&& 0x3f)),
      .ofNat (0x80 ||| ((codePoint >>> 6) &&& 0x3f)),
      .ofNat (0x80 ||| (codePoint &&& 0x3f))]

/-- A continuation octet of UTF-8. -/
def continuation (octet : UInt8) : Bool := 0x80 ≤ octet && octet ≤ 0xbf

/-- The code point of two to four octets, none when UTF-8 does not admit the sequence. -/
def uriUtf8CodePoint (octets : List UInt8) : Option ℕ :=
  if !octets.tail.all continuation then none
  else
    match octets.map UInt8.toNat with
    | [first, second] =>
      let value := (first &&& 0x1f) <<< 6 ||| (second &&& 0x3f)
      if value < 0x80 then none else some value
    | [first, second, third] =>
      let value := (first &&& 0x0f) <<< 12 ||| (second &&& 0x3f) <<< 6 ||| (third &&& 0x3f)
      if value < 0x800 then none
      else if 0xd800 ≤ value && value ≤ 0xdfff then none
      else some value
    | [first, second, third, fourth] =>
      let value := (first &&& 0x07) <<< 18 ||| (second &&& 0x3f) <<< 12 |||
        (third &&& 0x3f) <<< 6 ||| (fourth &&& 0x3f)
      if value < 0x10000 || 0x10ffff < value then none else some value
    | _ => none

/-- The value of one hexadecimal digit, 16 for every other unit. -/
def uriHexDigit (unit : CodeUnit) : ℕ :=
  if between '0' '9' unit then unit.toNat - '0'.toNat
  else if between 'A' 'F' unit then unit.toNat - 'A'.toNat + 10
  else if between 'a' 'f' unit then unit.toNat - 'a'.toNat + 10
  else 16

/-- The octet two units spell. -/
def uriHexOctet (high low : CodeUnit) : Option UInt8 :=
  if 15 < uriHexDigit high || 15 < uriHexDigit low then none
  else some (.ofNat (uriHexDigit high * 16 + uriHexDigit low))

/-- The octet of the escape sequence the units start with, and the units after it. -/
def takeEscape : List CodeUnit → Option (UInt8 × List CodeUnit)
  | unit :: high :: low :: rest =>
    if unit == percent then (uriHexOctet high low).map fun octet => (octet, rest) else none
  | _ => none

/-- The octets of as many escape sequences, and the units after them. -/
def takeEscapes : ℕ → List CodeUnit → Option (List UInt8 × List CodeUnit)
  | 0, units => some ([], units)
  | count + 1, units =>
    (takeEscape units).bind fun (octet, rest) =>
      (takeEscapes count rest).map fun (octets, rest) => (octet :: octets, rest)

/-- The uppercase hexadecimal digit of a value below 16. -/
def hexUnit (digit : ℕ) : CodeUnit := codeUnit ("0123456789ABCDEF".toList.getD digit '0')

/-- The escape sequence `%XX` of one octet. -/
def escapeOctet (octet : UInt8) : List CodeUnit :=
  [percent, hexUnit (octet.toNat >>> 4), hexUnit (octet.toNat &&& 0x0f)]

/-! ## Encode -/

/-- A leading surrogate. -/
def leads (unit : CodeUnit) : Bool := 0xd800 ≤ unit && unit ≤ 0xdbff

/-- A trailing surrogate. -/
def trails (unit : CodeUnit) : Bool := 0xdc00 ≤ unit && unit ≤ 0xdfff

/-- The code point of a surrogate pair. -/
def pairCodePoint (lead trail : CodeUnit) : ℕ :=
  0x10000 + (lead.toNat - 0xd800) <<< 10 + (trail.toNat - 0xdc00)

/-- The message of the URIError a failed call throws. -/
abbrev Message := String

def unpairedSurrogate : Message := "URI encoding received an unpaired surrogate."

def malformedEscape : Message := "URI decoding received a malformed escape sequence."

def malformedSequence : Message := "URI decoding received a malformed UTF-8 sequence."

/-- The escape sequences of one code point. -/
def escapeCodePoint (codePoint : ℕ) : List CodeUnit := (uriUtf8Octets codePoint).flatMap escapeOctet

/-- Encode: one code point of the string after the other. -/
def uriEncode (escapeReserved : Bool) : List CodeUnit → Except Message (List CodeUnit)
  | [] => .ok []
  | unit :: rest =>
    if uriAlwaysUnescaped unit || (!escapeReserved && uriReserved unit) then
      (uriEncode escapeReserved rest).map (unit :: ·)
    else
      match rest with
      | [] =>
        if leads unit || trails unit then .error unpairedSurrogate
        else .ok (escapeCodePoint unit.toNat)
      | next :: units =>
        if leads unit && trails next then
          (uriEncode escapeReserved units).map (escapeCodePoint (pairCodePoint unit next) ++ ·)
        else if leads unit || trails unit then .error unpairedSurrogate
        else (uriEncode escapeReserved (next :: units)).map (escapeCodePoint unit.toNat ++ ·)

/-! ## Decode -/

/-- The leading 1 bits of an octet, counted while it is shifted out. -/
def leadingOnes : ℕ → UInt8 → ℕ
  | 0, _ => 0
  | bits + 1, probe => if probe &&& 0x80 != 0 then leadingOnes bits (probe <<< 1) + 1 else 0

/-- The number of leading 1 bits in the first octet of a sequence. -/
def sequenceLength (octet : UInt8) : ℕ := leadingOnes 8 octet

/-- UTF16EncodeCodePoint. -/
def utf16Units (codePoint : ℕ) : List CodeUnit :=
  if codePoint ≤ 0xffff then [.ofNat codePoint]
  else
    [.ofNat (0xd800 + (codePoint - 0x10000) >>> 10),
      .ofNat (0xdc00 + ((codePoint - 0x10000) &&& 0x3ff))]

/-- What the escape sequences at the front of the units decode to, and the units after them. -/
def decodeEscapes (preserveReserved : Bool) (units : List CodeUnit) :
    Except Message (List CodeUnit × List CodeUnit) :=
  match takeEscape units with
  | none => .error malformedEscape
  | some (first, rest) =>
    if sequenceLength first = 0 then
      let decoded : CodeUnit := .ofNat first.toNat
      if preserveReserved && uriReserved decoded then .ok (units.take 3, rest)
      else .ok ([decoded], rest)
    else if sequenceLength first = 1 || 4 < sequenceLength first then .error malformedSequence
    else
      match takeEscapes (sequenceLength first - 1) rest with
      | none => .error malformedEscape
      | some (octets, rest) =>
        match uriUtf8CodePoint (first :: octets) with
        | none => .error malformedSequence
        | some codePoint => .ok (utf16Units codePoint, rest)

/-- Decode, one unit or one run of escape sequences a turn. -/
def uriDecodeLoop (preserveReserved : Bool) : ℕ → List CodeUnit → Except Message (List CodeUnit)
  | _, [] => .ok []
  | 0, _ :: _ => .ok []
  | fuel + 1, unit :: rest =>
    if unit != percent then (uriDecodeLoop preserveReserved fuel rest).map (unit :: ·)
    else
      match decodeEscapes preserveReserved (unit :: rest) with
      | .error message => .error message
      | .ok (decoded, rest) =>
        (uriDecodeLoop preserveReserved fuel rest).map (decoded ++ ·)

/-- Decode: every turn shortens the rest of the string, so its length is fuel enough. -/
def uriDecode (preserveReserved : Bool) (units : List CodeUnit) : Except Message (List CodeUnit) :=
  uriDecodeLoop preserveReserved units.length units

/-! ## The Annex B pair -/

/-- What `escape` writes for one unit. -/
def escapeUnit (unit : CodeUnit) : List CodeUnit :=
  if escapeUnescaped unit then [unit]
  else if unit < 256 then
    [percent, hexUnit (unit.toNat >>> 4), hexUnit (unit.toNat &&& 0x0f)]
  else
    [percent, codeUnit 'u', hexUnit (unit.toNat >>> 12), hexUnit ((unit.toNat >>> 8) &&& 0x0f),
      hexUnit ((unit.toNat >>> 4) &&& 0x0f), hexUnit (unit.toNat &&& 0x0f)]

def escapeString (units : List CodeUnit) : List CodeUnit := units.flatMap escapeUnit

/-- The value of some hexadecimal digits after the ones accumulated so far. -/
def unescapeHexValue : ℕ → List CodeUnit → Option ℕ
  | accumulated, [] => some accumulated
  | accumulated, unit :: units =>
    if 15 < uriHexDigit unit then none
    else unescapeHexValue (accumulated * 16 + uriHexDigit unit) units

/-- The value a form of a `%` spells with as many digits, when they are there. -/
def unescapeForm (count : ℕ) (units : List CodeUnit) : Option ℕ :=
  if count ≤ units.length then unescapeHexValue 0 (units.take count) else none

/-- The `%uXXXX` form after a `%`. -/
def unescapeLong : List CodeUnit → Option ℕ
  | [] => none
  | unit :: units => if unit == codeUnit 'u' then unescapeForm 4 units else none

/-- The unit at the front of the string and how many units it took. -/
def unescapeUnit (unit : CodeUnit) (rest : List CodeUnit) : CodeUnit × ℕ :=
  if unit == percent then
    match unescapeLong rest with
    | some value => (.ofNat value, 6)
    | none =>
      match unescapeForm 2 rest with
      | some value => (.ofNat value, 3)
      | none => (unit, 1)
  else (unit, 1)

def unescapeLoop : ℕ → List CodeUnit → List CodeUnit
  | _, [] => []
  | 0, _ :: _ => []
  | fuel + 1, unit :: rest =>
    (unescapeUnit unit rest).1 ::
      unescapeLoop fuel ((unit :: rest).drop (unescapeUnit unit rest).2)

def unescapeString (units : List CodeUnit) : List CodeUnit := unescapeLoop units.length units

/-! ## The functions -/

/-- One global string function, in the order of the source's table. -/
inductive UriOperation where
  | decodeURI
  | decodeURIComponent
  | encodeURI
  | encodeURIComponent
  | escape
  | unescape
deriving DecidableEq, Repr

/-- A call with a string. The conversion of any other argument comes before it. -/
def uriCall (operation : UriOperation) (units : List CodeUnit) : Except Message (List CodeUnit) :=
  if operation = .escape then .ok (escapeString units)
  else if operation = .unescape then .ok (unescapeString units)
  else if operation = .encodeURI ∨ operation = .encodeURIComponent then
    uriEncode (operation = .encodeURIComponent) units
  else uriDecode (operation = .decodeURI) units

/-! ## Decoding of escape sequences

The octets a code point is written as are its UTF-8 encoding (`uriUtf8Octets_eq`), and two to four
octets are read as a code point exactly when they are the encoding of one
(`uriUtf8CodePoint_eq_some`).
-/

open List
open Nat
open Oseo.Library (or_eq_add)

/-! ## Bit fields -/

lemma prefix_two {low : ℕ} (h : low < 32) : 0xc0 ||| low = 0xc0 + low :=
  @or_eq_add 5 low 6 h

lemma prefix_three {low : ℕ} (h : low < 16) : 0xe0 ||| low = 0xe0 + low :=
  @or_eq_add 4 low 14 h

lemma prefix_four {low : ℕ} (h : low < 8) : 0xf0 ||| low = 0xf0 + low :=
  @or_eq_add 3 low 30 h

lemma tail_bits (value : ℕ) : value &&& 0x3f = value % 64 := and_two_pow_sub_one_eq_mod value 6

lemma prefix_tail (value : ℕ) : 0x80 ||| (value &&& 0x3f) = 0x80 + value % 64 := by
  rw [tail_bits]
  exact @or_eq_add 6 (value % 64) 2 (mod_lt _ (by decide))

/-- The bits of two octets that continue a sequence. -/
lemma value_tails (first second : ℕ) : (first &&& 0x3f) <<< 6 ||| (second &&& 0x3f) =
    64 * (first % 64) + second % 64 := by
  rw [tail_bits, tail_bits]
  exact or_eq_add (mod_lt _ (by decide))

/-- The bits of a sequence of two octets. -/
lemma value_two (first second : ℕ) : (first &&& 0x1f) <<< 6 ||| (second &&& 0x3f) =
    64 * (first % 32) + second % 64 := by
  have hfirst : first &&& 0x1f = first % 32 := and_two_pow_sub_one_eq_mod first 5
  rw [hfirst, tail_bits]
  exact or_eq_add (mod_lt _ (by decide))

/-- The bits of a sequence of three octets. -/
lemma value_three (first second third : ℕ) :
    (first &&& 0x0f) <<< 12 ||| (second &&& 0x3f) <<< 6 ||| (third &&& 0x3f) =
    4096 * (first % 16) + 64 * (second % 64) + third % 64 := by
  have hfirst : first &&& 0x0f = first % 16 := and_two_pow_sub_one_eq_mod first 4
  have hbound : 64 * (second % 64) + third % 64 < 2 ^ 12 := by omega
  rw [hfirst, Nat.or_assoc, value_tails, or_eq_add hbound]
  omega

/-- The bits of a sequence of four octets. -/
lemma value_four (first second third fourth : ℕ) :
    (first &&& 0x07) <<< 18 ||| (second &&& 0x3f) <<< 12 ||| (third &&& 0x3f) <<< 6 |||
      (fourth &&& 0x3f) =
    262144 * (first % 8) + 4096 * (second % 64) + 64 * (third % 64) + fourth % 64 := by
  have hfirst : first &&& 0x07 = first % 8 := and_two_pow_sub_one_eq_mod first 3
  have hbound : 64 * (third % 64) + fourth % 64 < 2 ^ 12 := by omega
  have hmiddle : 2 ^ 12 * (second % 64) + (64 * (third % 64) + fourth % 64) < 2 ^ 18 := by omega
  rw [hfirst, Nat.or_assoc, Nat.or_assoc, value_tails, tail_bits, or_eq_add hbound,
    or_eq_add hmiddle]
  omega

/-! ## UTF-8 -/

/-- The UTF-8 encoding of a code point, as numbers. -/
def utf8Values (value : ℕ) : List ℕ :=
  if value ≤ 0x7f then [value]
  else if value ≤ 0x7ff then [0xc0 + value / 64, 0x80 + value % 64]
  else if value ≤ 0xffff then
    [0xe0 + value / 4096, 0x80 + value / 64 % 64, 0x80 + value % 64]
  else
    [0xf0 + value / 262144, 0x80 + value / 4096 % 64, 0x80 + value / 64 % 64, 0x80 + value % 64]

lemma toNat_ofNat_octet {value : ℕ} (h : value < 256) : (UInt8.ofNat value).toNat = value := by
  rw [UInt8.toNat_ofNat']
  exact mod_eq_of_lt h

lemma uriUtf8Octets_values {value : ℕ} (h : value ≤ 0x10ffff) :
    (uriUtf8Octets value).map UInt8.toNat = utf8Values value := by
  have hsix : value >>> 6 = value / 64 := shiftRight_eq_div_pow value 6
  have htwelve : value >>> 12 = value / 4096 := shiftRight_eq_div_pow value 12
  have heighteen : value >>> 18 = value / 262144 := shiftRight_eq_div_pow value 18
  have htail : ∀ part : ℕ, (UInt8.ofNat (0x80 + part % 64)).toNat = 0x80 + part % 64 :=
    fun part => toNat_ofNat_octet (by omega)
  unfold uriUtf8Octets utf8Values
  rw [hsix, htwelve, heighteen]
  simp only [prefix_tail]
  split_ifs with hone htwo hthree
  · rw [map_singleton, toNat_ofNat_octet (by omega)]
  · rw [prefix_two (by omega), map_cons, map_singleton, toNat_ofNat_octet (by omega),
      htail]
  · rw [prefix_three (by omega)]
    simp only [map_cons, map_nil, htail]
    rw [toNat_ofNat_octet (by omega)]
  · rw [prefix_four (by omega)]
    simp only [map_cons, map_nil, htail]
    rw [toNat_ofNat_octet (by omega)]

lemma char_toNat_le (character : Char) : character.toNat ≤ 0x10ffff := by
  have hvalid : character.toNat < 0xd800 ∨ 0xdfff < character.toNat ∧ character.toNat < 0x110000 :=
    character.valid
  omega

lemma char_not_surrogate (character : Char) :
    character.toNat < 0xd800 ∨ 0xdfff < character.toNat := by
  have hvalid : character.toNat < 0xd800 ∨ 0xdfff < character.toNat ∧ character.toNat < 0x110000 :=
    character.valid
  omega

/-- Every scalar value is the number of a character. -/
lemma exists_char {value : ℕ} (hle : value ≤ 0x10ffff) (h : value < 0xd800 ∨ 0xdfff < value) :
    ∃ character : Char, character.toNat = value := by
  have hvalid : value < 0xd800 ∨ 0xdfff < value ∧ value < 0x110000 := by omega
  exact ⟨Char.ofNatAux value hvalid, rfl⟩

lemma utf8EncodeChar_values (character : Char) :
    (String.utf8EncodeChar character).map UInt8.toNat = utf8Values character.toNat := by
  have hle := char_toNat_le character
  have hval : character.val.toNat = character.toNat := rfl
  have htail : ∀ part : ℕ, (UInt8.ofNat (part % 64 + 0x80)).toNat = 0x80 + part % 64 := by
    intro part
    rw [toNat_ofNat_octet (by omega), add_comm]
  unfold String.utf8EncodeChar utf8Values
  rw [hval]
  dsimp only
  split_ifs with hone htwo hthree
  · rw [map_singleton, toNat_ofNat_octet (by omega)]
  · simp only [map_cons, map_nil, htail]
    rw [toNat_ofNat_octet (by omega)]
    congr 1
    omega
  · simp only [map_cons, map_nil, htail]
    rw [toNat_ofNat_octet (by omega)]
    congr 1
    omega
  · simp only [map_cons, map_nil, htail]
    rw [toNat_ofNat_octet (by omega)]
    congr 1
    omega

lemma octets_ext {left right : List UInt8} (h : left.map UInt8.toNat = right.map UInt8.toNat) :
    left = right :=
  List.map_injective_iff.mpr (fun _ _ heq => UInt8.toNat_inj.mp heq) h

/-- The octets of a code point are its UTF-8 encoding. -/
theorem uriUtf8Octets_eq (character : Char) :
    uriUtf8Octets character.toNat = String.utf8EncodeChar character := by
  apply octets_ext
  rw [uriUtf8Octets_values (char_toNat_le character), utf8EncodeChar_values]

lemma continuation_iff (octet : UInt8) :
    continuation octet = true ↔ 0x80 ≤ octet.toNat ∧ octet.toNat ≤ 0xbf := by
  unfold continuation
  rw [Bool.and_eq_true, decide_eq_true_eq, decide_eq_true_eq, UInt8.le_iff_toNat_le,
    UInt8.le_iff_toNat_le]
  rfl

/-- A value of the encoding of two octets. -/
lemma utf8Values_eq_two {value first second : ℕ} : utf8Values value = [first, second] ↔
    0x7f < value ∧ value ≤ 0x7ff ∧ first = 0xc0 + value / 64 ∧ second = 0x80 + value % 64 := by
  unfold utf8Values
  split_ifs <;> simp <;> omega

lemma utf8Values_eq_three {value first second third : ℕ} :
    utf8Values value = [first, second, third] ↔
    0x7ff < value ∧ value ≤ 0xffff ∧ first = 0xe0 + value / 4096 ∧
      second = 0x80 + value / 64 % 64 ∧ third = 0x80 + value % 64 := by
  unfold utf8Values
  split_ifs <;> simp <;> omega

lemma utf8Values_eq_four {value first second third fourth : ℕ} :
    utf8Values value = [first, second, third, fourth] ↔
    0xffff < value ∧ first = 0xf0 + value / 262144 ∧ second = 0x80 + value / 4096 % 64 ∧
      third = 0x80 + value / 64 % 64 ∧ fourth = 0x80 + value % 64 := by
  unfold utf8Values
  split_ifs <;> simp <;> omega

/-- A scalar value. -/
def Scalar (value : ℕ) : Prop := value ≤ 0x10ffff ∧ (value < 0xd800 ∨ 0xdfff < value)

lemma uriUtf8CodePoint_two {first second : UInt8} {value : ℕ}
    (hlow : 0xc0 ≤ first.toNat) (hhigh : first.toNat < 0xe0) :
    uriUtf8CodePoint [first, second] = some value ↔
      Scalar value ∧ utf8Values value = [first.toNat, second.toNat] := by
  rw [utf8Values_eq_two]
  unfold uriUtf8CodePoint Scalar
  simp only [tail_cons, all_cons, all_nil, Bool.and_true, map_cons,
    map_nil, value_two]
  cases hsecond : continuation second with
  | false =>
    have hout : ¬(0x80 ≤ second.toNat ∧ second.toNat ≤ 0xbf) := by
      rw [← continuation_iff, hsecond]
      exact Bool.false_ne_true
    simp
    omega
  | true =>
    have hin := (continuation_iff second).mp hsecond
    simp
    omega

lemma uriUtf8CodePoint_three {first second third : UInt8} {value : ℕ}
    (hlow : 0xe0 ≤ first.toNat) (hhigh : first.toNat < 0xf0) :
    uriUtf8CodePoint [first, second, third] = some value ↔
      Scalar value ∧ utf8Values value = [first.toNat, second.toNat, third.toNat] := by
  rw [utf8Values_eq_three]
  unfold uriUtf8CodePoint Scalar
  simp only [tail_cons, all_cons, all_nil, Bool.and_true, map_cons,
    map_nil, value_three]
  cases htail : continuation second && continuation third with
  | false =>
    have hout : ¬((0x80 ≤ second.toNat ∧ second.toNat ≤ 0xbf) ∧ (0x80 ≤ third.toNat ∧ third.toNat ≤ 0xbf)) := by
      intro hin
      rw [(continuation_iff second).mpr hin.1, (continuation_iff third).mpr hin.2] at htail
      cases htail
    rw [Bool.not_false, if_pos rfl]
    apply iff_of_false (Option.some_ne_none value).symm
    rintro ⟨-, heq⟩
    exact hout (by omega)
  | true =>
    simp only [Bool.and_eq_true, continuation_iff] at htail
    simp
    omega

lemma uriUtf8CodePoint_four {first second third fourth : UInt8} {value : ℕ}
    (hlow : 0xf0 ≤ first.toNat) (hhigh : first.toNat < 0xf8) :
    uriUtf8CodePoint [first, second, third, fourth] = some value ↔
      Scalar value ∧ utf8Values value = [first.toNat, second.toNat, third.toNat, fourth.toNat] := by
  rw [utf8Values_eq_four]
  unfold uriUtf8CodePoint Scalar
  simp only [tail_cons, all_cons, all_nil, Bool.and_true, map_cons,
    map_nil, value_four]
  cases htail : continuation second && (continuation third && continuation fourth) with
  | false =>
    have hout : ¬((0x80 ≤ second.toNat ∧ second.toNat ≤ 0xbf) ∧ (0x80 ≤ third.toNat ∧ third.toNat ≤ 0xbf) ∧ (0x80 ≤ fourth.toNat ∧ fourth.toNat ≤ 0xbf)) := by
      intro hin
      rw [(continuation_iff second).mpr hin.1, (continuation_iff third).mpr hin.2.1, (continuation_iff fourth).mpr hin.2.2] at htail
      cases htail
    rw [Bool.not_false, if_pos rfl]
    apply iff_of_false (Option.some_ne_none value).symm
    rintro ⟨-, heq⟩
    exact hout (by omega)
  | true =>
    simp only [Bool.and_eq_true, continuation_iff] at htail
    simp
    omega

/-! ## The first octet of a sequence -/

set_option maxRecDepth 4000 in
lemma sequenceLength_cases (octet : UInt8) :
    (octet.toNat < 0x80 ∧ sequenceLength octet = 0) ∨
    (0x80 ≤ octet.toNat ∧ octet.toNat < 0xc0 ∧ sequenceLength octet = 1) ∨
    (0xc0 ≤ octet.toNat ∧ octet.toNat < 0xe0 ∧ sequenceLength octet = 2) ∨
    (0xe0 ≤ octet.toNat ∧ octet.toNat < 0xf0 ∧ sequenceLength octet = 3) ∨
    (0xf0 ≤ octet.toNat ∧ octet.toNat < 0xf8 ∧ sequenceLength octet = 4) ∨
    (0xf8 ≤ octet.toNat ∧ 4 < sequenceLength octet) := by
  have hall : ∀ value : Fin 256,
      (value.val < 0x80 ∧ sequenceLength (.ofNat value) = 0) ∨
      (0x80 ≤ value.val ∧ value.val < 0xc0 ∧ sequenceLength (.ofNat value) = 1) ∨
      (0xc0 ≤ value.val ∧ value.val < 0xe0 ∧ sequenceLength (.ofNat value) = 2) ∨
      (0xe0 ≤ value.val ∧ value.val < 0xf0 ∧ sequenceLength (.ofNat value) = 3) ∨
      (0xf0 ≤ value.val ∧ value.val < 0xf8 ∧ sequenceLength (.ofNat value) = 4) ∨
      (0xf8 ≤ value.val ∧ 4 < sequenceLength (.ofNat value)) := by decide
  have hoctet := hall ⟨octet.toNat, octet.toNat_lt⟩
  rwa [UInt8.ofNat_toNat] at hoctet

/-- The encoding of a character is as long as the leading bits of its first octet say. -/
lemma utf8Values_head {value : ℕ} (hle : value ≤ 0x10ffff) {first : UInt8} {octets : List UInt8}
    (h : utf8Values value = (first :: octets).map UInt8.toNat) :
    (sequenceLength first = 0 ∧ octets = [] ∧ first.toNat = value) ∨
      (2 ≤ sequenceLength first ∧ sequenceLength first ≤ 4 ∧
        octets.length = sequenceLength first - 1) := by
  have hlength : (utf8Values value).length = octets.length + 1 := by
    rw [h, length_map, length_cons]
  rw [map_cons] at h
  have hcases := sequenceLength_cases first
  unfold utf8Values at h hlength
  split_ifs at h hlength with hone htwo hthree
  · rw [cons.injEq] at h
    have hnil : octets = [] := eq_nil_of_length_eq_zero (by simpa using hlength.symm)
    exact .inl ⟨by omega, hnil, h.1.symm⟩
  all_goals
    obtain ⟨hfirst, -⟩ := cons.inj h
    simp only [length_cons, length_nil] at hlength
    exact .inr ⟨by omega, by omega, by omega⟩

/-- What is read of as many octets as the first one announces. -/
theorem uriUtf8CodePoint_eq_some {first : UInt8} {octets : List UInt8} {value : ℕ}
    (hlow : 2 ≤ sequenceLength first) (hhigh : sequenceLength first ≤ 4)
    (hlength : octets.length = sequenceLength first - 1) :
    uriUtf8CodePoint (first :: octets) = some value ↔
      ∃ character : Char, character.toNat = value ∧
        String.utf8EncodeChar character = first :: octets := by
  have hvalues : uriUtf8CodePoint (first :: octets) = some value ↔
      Scalar value ∧ utf8Values value = (first :: octets).map UInt8.toNat := by
    have hcases := sequenceLength_cases first
    match octets, hlength with
    | [], hlength => rw [length_nil] at hlength; omega
    | [second], hlength =>
      rw [length_singleton] at hlength
      exact uriUtf8CodePoint_two (by omega) (by omega)
    | [second, third], hlength =>
      simp only [length_cons, length_nil] at hlength
      exact uriUtf8CodePoint_three (by omega) (by omega)
    | [second, third, fourth], hlength =>
      simp only [length_cons, length_nil] at hlength
      exact uriUtf8CodePoint_four (by omega) (by omega)
    | _ :: _ :: _ :: _ :: _, hlength =>
      simp only [length_cons] at hlength
      omega
  rw [hvalues]
  constructor
  · rintro ⟨⟨hle, hscalar⟩, heq⟩
    obtain ⟨character, rfl⟩ := exists_char hle hscalar
    refine ⟨character, rfl, octets_ext ?_⟩
    rw [utf8EncodeChar_values, heq]
  · rintro ⟨character, rfl, heq⟩
    refine ⟨⟨char_toNat_le character, char_not_surrogate character⟩, ?_⟩
    rw [← utf8EncodeChar_values, heq]

/-! ## Decoding

What a string with escape sequences stands for (`Denotes`), and that Decode accepts the strings
that stand for something and returns it (`uriDecode_eq_ok`).
-/

open String (utf8EncodeChar)
open Option

variable {units rest run : List CodeUnit} {octets : List UInt8} {octet : UInt8}

/-! ## Meaning -/

/-- A unit that spells a hexadecimal digit, in either case. -/
def HexDigit (unit : CodeUnit) (digit : ℕ) : Prop :=
  digit < 16 ∧ (unit = codeUnit digit.digitChar ∨ unit = codeUnit digit.digitChar.toUpper)

/-- A run of escape sequences and the octets they spell. -/
inductive Escapes : List CodeUnit → List UInt8 → Prop where
  | nil : Escapes [] []
  | cons {high low : CodeUnit} {upper lower : ℕ} {octet : UInt8} {run : List CodeUnit}
      {octets : List UInt8} (hhigh : HexDigit high upper) (hlow : HexDigit low lower)
      (hoctet : octet.toNat = 16 * upper + lower) (hrun : Escapes run octets) :
      Escapes (percent :: high :: low :: run) (octet :: octets)

/-- The UTF-16 encoding of a character. -/
def utf16 (character : Char) : List CodeUnit :=
  if character.toNat < 0x10000 then [.ofNat character.toNat]
  else
    [.ofNat (0xd800 + (character.toNat - 0x10000) / 0x400),
      .ofNat (0xdc00 + (character.toNat - 0x10000) % 0x400)]

/-- A string in which every `%` is in a run of escape sequences that spells the UTF-8 encoding of
some character, and the text it stands for. The runs of preserved characters stand for
themselves. -/
inductive Denotes (preserved : Char → Bool) : List CodeUnit → List CodeUnit → Prop where
  | nil : Denotes preserved [] []
  | unit {unit : CodeUnit} {units text : List CodeUnit} (hunit : unit ≠ percent)
      (hunits : Denotes preserved units text) : Denotes preserved (unit :: units) (unit :: text)
  | run {run units text : List CodeUnit} {character : Char}
      (hrun : Escapes run (String.utf8EncodeChar character))
      (hunits : Denotes preserved units text) :
      Denotes preserved (run ++ units)
        ((if preserved character then run else utf16 character) ++ text)

/-- The characters whose escape sequences a decoding function preserves. -/
def preservedBy (preserveReserved : Bool) (character : Char) : Bool :=
  preserveReserved && uriReservedUnits.contains character

/-! ## Escape sequences -/

lemma between_iff {first last : Char} {unit : CodeUnit} : between first last unit = true ↔
    (codeUnit first).toNat ≤ unit.toNat ∧ unit.toNat ≤ (codeUnit last).toNat := by
  unfold between
  rw [Bool.and_eq_true, decide_eq_true_eq, decide_eq_true_eq, UInt16.le_iff_toNat_le,
    UInt16.le_iff_toNat_le]

lemma uriHexDigit_eq_ite (unit : CodeUnit) : uriHexDigit unit =
    if 48 ≤ unit.toNat ∧ unit.toNat ≤ 57 then unit.toNat - 48
    else if 65 ≤ unit.toNat ∧ unit.toNat ≤ 70 then unit.toNat - 55
    else if 97 ≤ unit.toNat ∧ unit.toNat ≤ 102 then unit.toNat - 87
    else 16 := by
  have hdigit : between '0' '9' unit = true ↔ 48 ≤ unit.toNat ∧ unit.toNat ≤ 57 := between_iff
  have hupper : between 'A' 'F' unit = true ↔ 65 ≤ unit.toNat ∧ unit.toNat ≤ 70 := between_iff
  have hlower : between 'a' 'f' unit = true ↔ 97 ≤ unit.toNat ∧ unit.toNat ≤ 102 := between_iff
  have hzero : '0'.toNat = 48 := rfl
  have ha : 'A'.toNat = 65 := rfl
  have ha' : 'a'.toNat = 97 := rfl
  unfold uriHexDigit
  simp only [hdigit, hupper, hlower]
  split_ifs <;> omega

lemma digitChar_unit : ∀ digit < 16,
    (codeUnit digit.digitChar).toNat = (if digit < 10 then 48 + digit else 87 + digit) ∧
      (codeUnit digit.digitChar.toUpper).toNat = if digit < 10 then 48 + digit else 55 + digit := by
  decide

lemma uriHexDigit_eq {unit : CodeUnit} {digit : ℕ} :
    uriHexDigit unit = digit ∧ digit ≤ 15 ↔ HexDigit unit digit := by
  unfold HexDigit
  rw [uriHexDigit_eq_ite, ← UInt16.toNat_inj, ← UInt16.toNat_inj]
  by_cases hdigit : digit < 16
  · obtain ⟨hlower, hupper⟩ := digitChar_unit digit hdigit
    rw [hlower, hupper]
    split_ifs <;> omega
  · omega

lemma uriHexOctet_eq_some {high low : CodeUnit} : uriHexOctet high low = some octet ↔
    ∃ upper lower, HexDigit high upper ∧ HexDigit low lower ∧
      octet.toNat = 16 * upper + lower := by
  unfold uriHexOctet
  constructor
  · intro h
    split at h
    · cases h
    · rename_i hdigits
      simp only [Bool.or_eq_true, decide_eq_true_eq] at hdigits
      rw [some.injEq] at h
      refine ⟨uriHexDigit high, uriHexDigit low, uriHexDigit_eq.mp ⟨rfl, by omega⟩,
        uriHexDigit_eq.mp ⟨rfl, by omega⟩, ?_⟩
      rw [← h, toNat_ofNat_octet (by omega), Nat.mul_comm]
  · rintro ⟨upper, lower, hhigh, hlow, hoctet⟩
    obtain ⟨rfl, hupper⟩ := uriHexDigit_eq.mpr hhigh
    obtain ⟨rfl, hlower⟩ := uriHexDigit_eq.mpr hlow
    rw [if_neg (by simp; omega), Nat.mul_comm, ← hoctet, UInt8.ofNat_toNat]

lemma takeEscape_eq_some : takeEscape units = some (octet, rest) ↔
    ∃ run, Escapes run [octet] ∧ units = run ++ rest := by
  constructor
  · intro h
    match units with
    | [] | [_] | [_, _] => cases h
    | unit :: high :: low :: after =>
      rw [takeEscape] at h
      split at h
      · rename_i hpercent
        rw [map_eq_some_iff] at h
        obtain ⟨read, hread, heq⟩ := h
        rw [Prod.mk.injEq] at heq
        obtain ⟨rfl, rfl⟩ := heq
        obtain ⟨upper, lower, hhigh, hlow, hoctet⟩ := uriHexOctet_eq_some.mp hread
        refine ⟨[percent, high, low], .cons hhigh hlow hoctet .nil, ?_⟩
        rw [eq_of_beq hpercent]
        rfl
      · cases h
  · rintro ⟨run, hrun, rfl⟩
    cases hrun with
    | cons hhigh hlow hoctet hnil =>
      cases hnil
      show takeEscape (percent :: _ :: _ :: rest) = _
      rw [takeEscape, if_pos (beq_self_eq_true percent),
        uriHexOctet_eq_some.mpr ⟨_, _, hhigh, hlow, hoctet⟩, map_some]

lemma takeEscapes_eq_some {count : ℕ} : takeEscapes count units = some (octets, rest) ↔
    octets.length = count ∧ ∃ run, Escapes run octets ∧ units = run ++ rest := by
  induction count generalizing units octets with
  | zero =>
    rw [takeEscapes, some.injEq, Prod.mk.injEq]
    constructor
    · rintro ⟨rfl, rfl⟩
      exact ⟨rfl, [], .nil, rfl⟩
    · rintro ⟨hlength, run, hrun, rfl⟩
      rw [length_eq_zero_iff] at hlength
      subst hlength
      cases hrun
      exact ⟨rfl, rfl⟩
  | succ count ih =>
    rw [takeEscapes, bind_eq_some_iff]
    constructor
    · rintro ⟨⟨first, after⟩, hfirst, h⟩
      obtain ⟨head, hhead, rfl⟩ := takeEscape_eq_some.mp hfirst
      rw [map_eq_some_iff] at h
      obtain ⟨⟨tail, remaining⟩, htail, heq⟩ := h
      rw [Prod.mk.injEq] at heq
      obtain ⟨rfl, rfl⟩ := heq
      obtain ⟨hlength, run, hrun, rfl⟩ := ih.mp htail
      refine ⟨by rw [length_cons, hlength], head ++ run, ?_, by rw [append_assoc]⟩
      cases hhead with
      | cons hhigh hlow hoctet hnil =>
        cases hnil
        exact .cons hhigh hlow hoctet hrun
    · rintro ⟨hlength, run, hrun, rfl⟩
      cases hrun with
      | nil => cases hlength
      | @cons high low upper lower first run octets hhigh hlow hoctet hrun =>
        refine ⟨(first, run ++ rest), takeEscape_eq_some.mpr ⟨_, .cons hhigh hlow hoctet .nil, rfl⟩,
          ?_⟩
        dsimp only
        rw [ih.mpr ⟨by simpa using hlength, run, hrun, rfl⟩, map_some]

/-! ## One run of escape sequences -/

lemma utf8EncodeChar_cases (character : Char) :
    ∃ first octets, utf8EncodeChar character = first :: octets ∧
      ((sequenceLength first = 0 ∧ octets = [] ∧ first.toNat = character.toNat) ∨
        (2 ≤ sequenceLength first ∧ sequenceLength first ≤ 4 ∧
          octets.length = sequenceLength first - 1)) := by
  have hvalues := utf8EncodeChar_values character
  cases hoctets : utf8EncodeChar character with
  | nil => exact absurd hoctets String.utf8EncodeChar_ne_nil
  | cons first octets =>
    rw [hoctets] at hvalues
    exact ⟨first, octets, rfl, utf8Values_head (char_toNat_le character) hvalues.symm⟩

lemma utf8EncodeChar_ascii {character : Char} {first : UInt8}
    (h : first.toNat = character.toNat) (hascii : first.toNat < 0x80) :
    utf8EncodeChar character = [first] := by
  apply octets_ext
  rw [utf8EncodeChar_values, utf8Values, if_pos (by omega), map_singleton, h]

lemma utf16Units_eq (character : Char) : utf16Units character.toNat = utf16 character := by
  have hshift : (character.toNat - 0x10000) >>> 10 = (character.toNat - 0x10000) / 0x400 :=
    Nat.shiftRight_eq_div_pow _ 10
  have hmask : (character.toNat - 0x10000) &&& 0x3ff = (character.toNat - 0x10000) % 0x400 :=
    Nat.and_two_pow_sub_one_eq_mod _ 10
  unfold utf16Units utf16
  rw [hshift, hmask]
  apply if_congr Nat.lt_succ_iff.symm rfl rfl

lemma utf16_ascii {character : Char} (h : character.toNat < 0x80) :
    utf16 character = [codeUnit character] := by
  rw [utf16, if_pos (by omega)]
  rfl

lemma reserved_ascii : ∀ character ∈ uriReservedUnits, character.toNat < 0x80 := by
  have hall : (uriReservedUnits.all fun character => character.toNat < 0x80) = true := by decide
  exact fun character hmem => of_decide_eq_true (all_eq_true.mp hall character hmem)

set_option maxRecDepth 4000 in
lemma uriReserved_ascii {character : Char} (h : character.toNat < 0x80) :
    uriReserved (codeUnit character) = uriReservedUnits.contains character := by
  have hall : ∀ value : Fin 128, uriReserved (codeUnit (Char.ofNat value)) =
      uriReservedUnits.contains (Char.ofNat value) := by decide
  have hcharacter := hall ⟨character.toNat, h⟩
  rwa [Char.ofNat_toNat] at hcharacter

/-- Only characters of one octet are preserved. -/
lemma preservedBy_eq_false {preserveReserved : Bool} {character : Char}
    (h : 0x80 ≤ character.toNat) : preservedBy preserveReserved character = false := by
  unfold preservedBy
  rw [Bool.and_eq_false_iff]
  right
  rw [contains_eq_mem, decide_eq_false_iff_not]
  intro hmem
  have hascii := reserved_ascii character hmem
  omega

lemma escapes_take {run rest : List CodeUnit} (h : Escapes run [octet]) :
    (run ++ rest).take 3 = run := by
  cases h with
  | cons hhigh hlow hoctet hnil =>
    cases hnil
    rfl

/-- The first octet of some escapes, and the escapes after it. -/
lemma Escapes.uncons {first : UInt8} (h : Escapes run (first :: octets)) :
    ∃ head tail, Escapes head [first] ∧ Escapes tail octets ∧ run = head ++ tail := by
  cases h with
  | cons hhigh hlow hoctet hrun => exact ⟨[_, _, _], _, .cons hhigh hlow hoctet .nil, hrun, rfl⟩

lemma Escapes.append {head tail : List CodeUnit} {first : UInt8} (h : Escapes head [first])
    (htail : Escapes tail octets) : Escapes (head ++ tail) (first :: octets) := by
  cases h with
  | cons hhigh hlow hoctet hnil =>
    cases hnil
    exact .cons hhigh hlow hoctet htail

lemma le_of_utf8EncodeChar {character : Char} {first second : UInt8}
    (h : utf8EncodeChar character = first :: second :: octets) :
    0x80 ≤ character.toNat := by
  have hvalues := utf8EncodeChar_values character
  rw [h, utf8Values] at hvalues
  split at hvalues
  · exact absurd (congrArg length hvalues) (by simp)
  · omega

/-- An escape sequence of one octet is an ASCII character. -/
lemma decodeEscapes_ascii {preserveReserved : Bool} {first : UInt8} {character : Char}
    (hrun : Escapes run [first]) (hzero : sequenceLength first = 0)
    (hcharacter : first.toNat = character.toNat) :
    decodeEscapes preserveReserved (run ++ rest) =
      .ok (if preservedBy preserveReserved character then run else utf16 character, rest) := by
  have hcases := sequenceLength_cases first
  have hascii : character.toNat < 0x80 := by omega
  have htake : takeEscape (run ++ rest) = some (first, rest) :=
    takeEscape_eq_some.mpr ⟨run, hrun, rfl⟩
  rw [decodeEscapes, htake]
  dsimp only
  rw [if_pos hzero, hcharacter, utf16_ascii hascii, escapes_take hrun]
  show (if (preserveReserved && uriReserved (codeUnit character)) = true then _ else _) = _
  rw [uriReserved_ascii hascii]
  show (if preservedBy preserveReserved character = true then _ else _) = _
  split <;> rfl

/-- A sequence of more octets is read to its end. -/
lemma decodeEscapes_long {preserveReserved : Bool} {decoded : List CodeUnit} {first : UInt8}
    (htake : takeEscape units = some (first, rest)) (hlow : 2 ≤ sequenceLength first)
    (hhigh : sequenceLength first ≤ 4) {after : List CodeUnit} :
    decodeEscapes preserveReserved units = .ok (decoded, after) ↔
      ∃ octets character, takeEscapes (sequenceLength first - 1) rest = some (octets, after) ∧
        utf8EncodeChar character = first :: octets ∧ decoded = utf16 character := by
  rw [decodeEscapes, htake]
  dsimp only
  rw [if_neg (by omega), if_neg (by simp; omega)]
  cases htail : takeEscapes (sequenceLength first - 1) rest with
  | none => simp
  | some read =>
    obtain ⟨octets, remaining⟩ := read
    have hlength := (takeEscapes_eq_some.mp htail).1
    have hread := fun value =>
      @uriUtf8CodePoint_eq_some first octets value hlow hhigh hlength
    cases hvalue : uriUtf8CodePoint (first :: octets) with
    | none =>
      dsimp only
      rw [hvalue]
      apply iff_of_false (by simp)
      rintro ⟨octets', character, heq, hcharacter, -⟩
      rw [some.injEq, Prod.mk.injEq] at heq
      obtain ⟨rfl, rfl⟩ := heq
      have hsome := (hread character.toNat).mpr ⟨character, rfl, hcharacter⟩
      rw [hvalue] at hsome
      cases hsome
    | some value =>
      obtain ⟨character, rfl, hcharacter⟩ := (hread value).mp hvalue
      dsimp only
      rw [hvalue]
      dsimp only
      rw [utf16Units_eq, Except.ok.injEq, Prod.mk.injEq]
      constructor
      · rintro ⟨rfl, rfl⟩
        exact ⟨octets, character, rfl, hcharacter, rfl⟩
      · rintro ⟨octets', character', heq, hcharacter', rfl⟩
        rw [some.injEq, Prod.mk.injEq] at heq
        obtain ⟨rfl, rfl⟩ := heq
        have hsame := (hread character'.toNat).mpr ⟨character', rfl, hcharacter'⟩
        rw [hvalue, some.injEq, Char.toNat_inj] at hsame
        exact ⟨by rw [hsame], rfl⟩

/-- What is decoded at a `%` is the run of escape sequences of one character. -/
lemma decodeEscapes_eq_ok {preserveReserved : Bool} {decoded : List CodeUnit} :
    decodeEscapes preserveReserved units = .ok (decoded, rest) ↔
      ∃ run character, Escapes run (utf8EncodeChar character) ∧ units = run ++ rest ∧
        decoded = if preservedBy preserveReserved character then run else utf16 character := by
  constructor
  · intro h
    cases htake : takeEscape units with
    | none =>
      rw [decodeEscapes, htake] at h
      cases h
    | some read =>
      obtain ⟨first, after⟩ := read
      obtain ⟨head, hhead, rfl⟩ := takeEscape_eq_some.mp htake
      have hcases := sequenceLength_cases first
      by_cases hzero : sequenceLength first = 0
      · obtain ⟨character, hcharacter⟩ := @exists_char first.toNat (by omega) (by omega)
        rw [decodeEscapes_ascii hhead hzero hcharacter.symm, Except.ok.injEq, Prod.mk.injEq] at h
        obtain ⟨rfl, rfl⟩ := h
        refine ⟨head, character, ?_, rfl, rfl⟩
        rwa [utf8EncodeChar_ascii hcharacter.symm (by omega)]
      · by_cases hbad : sequenceLength first = 1 ∨ 4 < sequenceLength first
        · rw [decodeEscapes, htake] at h
          dsimp only at h
          rw [if_neg hzero, if_pos (by simpa using hbad)] at h
          cases h
        · rw [decodeEscapes_long htake (by omega) (by omega)] at h
          obtain ⟨octets, character, htail, hcharacter, rfl⟩ := h
          obtain ⟨hlength, run, hrun, rfl⟩ := takeEscapes_eq_some.mp htail
          refine ⟨head ++ run, character, ?_, by rw [append_assoc], ?_⟩
          · rw [hcharacter]
            exact hhead.append hrun
          · match octets, hlength with
            | [], hlength => rw [length_nil] at hlength; omega
            | second :: octets, hlength =>
              rw [preservedBy_eq_false (le_of_utf8EncodeChar hcharacter)]
              rfl
  · rintro ⟨run, character, hrun, rfl, rfl⟩
    obtain ⟨first, octets, hcharacter, ⟨hzero, rfl, hvalue⟩ | ⟨hlow, hhigh, hlength⟩⟩ :=
      utf8EncodeChar_cases character
    · rw [hcharacter] at hrun
      exact decodeEscapes_ascii hrun hzero hvalue
    · rw [hcharacter] at hrun
      obtain ⟨head, tail, hhead, htail, rfl⟩ := hrun.uncons
      match octets, hlength with
      | [], hlength => rw [length_nil] at hlength; omega
      | second :: octets, hlength =>
        have htake : takeEscape (head ++ tail ++ rest) = some (first, tail ++ rest) :=
          takeEscape_eq_some.mpr ⟨head, hhead, append_assoc _ _ _⟩
        rw [decodeEscapes_long htake hlow hhigh,
          preservedBy_eq_false (le_of_utf8EncodeChar hcharacter)]
        exact ⟨_, character, takeEscapes_eq_some.mpr ⟨hlength, tail, htail, rfl⟩, hcharacter, rfl⟩

/-! ## The whole string -/

lemma escapes_character {character : Char} (h : Escapes run (utf8EncodeChar character)) :
    3 ≤ run.length ∧ run.head? = some percent := by
  cases hoctets : utf8EncodeChar character with
  | nil => exact absurd hoctets String.utf8EncodeChar_ne_nil
  | cons first octets =>
    rw [hoctets] at h
    cases h with
    | cons hhigh hlow hoctet hrun => simp

lemma denotes_nil {preserved : Char → Bool} {text : List CodeUnit} :
    Denotes preserved [] text ↔ text = [] := by
  constructor
  · intro h
    generalize hunits : [] = units at h
    cases h with
    | nil => rfl
    | unit => cases hunits
    | run hrun hrest =>
      have hlength := (escapes_character hrun).1
      rw [eq_nil_of_append_eq_nil hunits.symm |>.1] at hlength
      cases hlength
  · rintro rfl
    exact .nil

lemma denotes_unit {preserved : Char → Bool} {unit : CodeUnit} {text : List CodeUnit}
    (hunit : unit ≠ percent) : Denotes preserved (unit :: rest) text ↔
      ∃ tail, text = unit :: tail ∧ Denotes preserved rest tail := by
  constructor
  · intro h
    generalize hunits : unit :: rest = units at h
    cases h with
    | nil => cases hunits
    | unit _ hrest =>
      rw [cons.injEq] at hunits
      obtain ⟨rfl, rfl⟩ := hunits
      exact ⟨_, rfl, hrest⟩
    | run hrun hrest =>
      -- a run starts with a percent sign
      have hhead := escapes_character hrun
      rename_i run after tail character
      cases run with
      | nil => exact absurd hhead.1 (by simp)
      | cons first run =>
        rw [cons_append, cons.injEq] at hunits
        rw [head?_cons, some.injEq, ← hunits.1] at hhead
        exact absurd hhead.2 hunit
  · rintro ⟨tail, rfl, hrest⟩
    exact .unit hunit hrest

lemma denotes_percent {preserved : Char → Bool} {text : List CodeUnit} :
    Denotes preserved (percent :: units) text ↔
      ∃ run rest tail character, Escapes run (utf8EncodeChar character) ∧
        percent :: units = run ++ rest ∧ Denotes preserved rest tail ∧
        text = (if preserved character then run else utf16 character) ++ tail := by
  constructor
  · intro h
    generalize hunits : percent :: units = string at h
    cases h with
    | nil => cases hunits
    | unit hunit _ =>
      rw [cons.injEq] at hunits
      exact absurd hunits.1.symm hunit
    | run hrun hrest => exact ⟨_, _, _, _, hrun, rfl, hrest, rfl⟩
  · rintro ⟨run, rest, tail, character, hrun, hunits, hrest, rfl⟩
    rw [hunits]
    exact .run hrun hrest

lemma map_eq_ok {result : Except Message (List CodeUnit)} {text : List CodeUnit}
    {wrap : List CodeUnit → List CodeUnit} :
    result.map wrap = .ok text ↔ ∃ tail, result = .ok tail ∧ wrap tail = text := by
  cases result with
  | error message => simp [Except.map]
  | ok tail => simp [Except.map]

/-- With fuel for the rest of the string, the loop returns what the rest stands for. -/
lemma uriDecodeLoop_eq_ok {preserveReserved : Bool} {fuel : ℕ} {text : List CodeUnit}
    (hfuel : units.length ≤ fuel) : uriDecodeLoop preserveReserved fuel units = .ok text ↔
      Denotes (preservedBy preserveReserved) units text := by
  induction fuel generalizing units text with
  | zero =>
    rw [eq_nil_of_length_eq_zero (Nat.le_zero.mp hfuel), uriDecodeLoop, Except.ok.injEq,
      denotes_nil]
    exact eq_comm
  | succ fuel ih =>
    cases units with
    | nil =>
      rw [uriDecodeLoop, Except.ok.injEq, denotes_nil]
      exact eq_comm
    | cons unit units =>
      rw [length_cons] at hfuel
      rw [uriDecodeLoop]
      by_cases hunit : unit = percent
      · subst hunit
        rw [if_neg (by simp), denotes_percent]
        constructor
        · intro h
          cases hescapes : decodeEscapes preserveReserved (percent :: units) with
          | error message =>
            rw [hescapes] at h
            cases h
          | ok read =>
            obtain ⟨decoded, rest⟩ := read
            obtain ⟨run, character, hrun, hunits, rfl⟩ := decodeEscapes_eq_ok.mp hescapes
            rw [hescapes] at h
            obtain ⟨tail, htail, rfl⟩ := map_eq_ok.mp h
            have hlength := congrArg length hunits
            have hpos := (escapes_character hrun).1
            rw [length_cons, length_append] at hlength
            exact ⟨run, rest, tail, character, hrun, hunits, (ih (by omega)).mp htail, rfl⟩
        · rintro ⟨run, rest, tail, character, hrun, hunits, hrest, rfl⟩
          have hlength := congrArg length hunits
          have hpos := (escapes_character hrun).1
          rw [length_cons, length_append] at hlength
          rw [decodeEscapes_eq_ok.mpr ⟨run, character, hrun, hunits, rfl⟩]
          exact map_eq_ok.mpr ⟨tail, (ih (by omega)).mpr hrest, rfl⟩
      · rw [if_pos (by simpa using hunit), denotes_unit hunit, map_eq_ok]
        constructor
        · rintro ⟨tail, htail, rfl⟩
          exact ⟨tail, rfl, (ih (by omega)).mp htail⟩
        · rintro ⟨tail, rfl, hrest⟩
          exact ⟨tail, (ih (by omega)).mpr hrest, rfl⟩

/-- Decode accepts the strings that stand for something, and returns what they stand for. -/
theorem uriDecode_eq_ok {preserveReserved : Bool} {text : List CodeUnit} :
    uriDecode preserveReserved units = .ok text ↔
      Denotes (preservedBy preserveReserved) units text :=
  uriDecodeLoop_eq_ok (Nat.le_refl _)

end Oseo.UriCoding
