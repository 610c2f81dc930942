import Oseo.UriCoding.UriDecoding

/-!
# Base64 and hexadecimal text of a Uint8Array

`toBase64`, `toHex` and the four functions that decode of `runtime_typed_array.c`. A string is its
list of UTF-16 code units. The decoding loops keep the units from their index on; where they answer
an index, it is the length of the string less the number of these units.

* A work buffer is the list of its bytes, and a write that does not fit into it has no result;
* the loop of `base64_decode` takes `rounds`.
-/

namespace Oseo.BinaryText

open Oseo.UriCoding (CodeUnit codeUnit between)

/-- `Base64LastChunkHandling`. -/
inductive Base64LastChunkHandling
  | loose
  | strict
  | stopBeforePartial
deriving DecidableEq

/-- `Base64DecodeResult`. -/
structure Base64DecodeResult where
  read : ℕ
  written : ℕ
  error : Bool
deriving DecidableEq

/-! ## Digits -/

/-- Tab, line feed, form feed, carriage return, and space. -/
def isWhitespace (unit : CodeUnit) : Bool :=
  unit = 0x09 || unit = 0x0a || unit = 0x0c || unit = 0x0d || unit = 0x20

/-- `base64_skip_whitespace`, with the units that are left. -/
def base64SkipWhitespace (units : List CodeUnit) : List CodeUnit := units.dropWhile isWhitespace

/-- `base64_digit`: the value of a unit in the standard alphabet. -/
def base64Digit (unit : CodeUnit) : Option ℕ :=
  if between 'A' 'Z' unit then some (unit.toNat - 'A'.toNat)
  else if between 'a' 'z' unit then some (unit.toNat - 'a'.toNat + 26)
  else if between '0' '9' unit then some (unit.toNat - '0'.toNat + 52)
  else if unit = codeUnit '+' then some 62
  else if unit = codeUnit '/' then some 63
  else none

/-- A unit of the URL-safe alphabet, as the unit of the standard one. -/
def base64Unit (url : Bool) (unit : CodeUnit) : Option CodeUnit :=
  if url then
    if unit = codeUnit '+' || unit = codeUnit '/' then none
    else if unit = codeUnit '-' then some (codeUnit '+')
    else if unit = codeUnit '_' then some (codeUnit '/')
    else some unit
  else some unit

/-- `base64_hex_digit`. -/
def base64HexDigit (unit : CodeUnit) : Option ℕ :=
  if between '0' '9' unit then some (unit.toNat - '0'.toNat)
  else if between 'a' 'f' unit then some (unit.toNat - 'a'.toNat + 10)
  else if between 'A' 'F' unit then some (unit.toNat - 'A'.toNat + 10)
  else none

/-! ## Decoding -/

/-- The bits of up to four digits. -/
def chunkBits (digits : List ℕ) : ℕ :=
  (List.range 4).foldl (fun bits index => (bits <<< 6) ||| digits.getD index 0) 0

/-- `base64_decode_chunk`: the bytes it produces, none for extra bits that are refused. -/
def base64DecodeChunk (digits : List ℕ) (throwOnExtraBits : Bool) : Option (List UInt8) :=
  let bits := chunkBits digits
  let bytes : List UInt8 := [.ofNat (bits >>> 16), .ofNat (bits >>> 8), .ofNat bits]
  let produced := digits.length - 1
  if throwOnExtraBits && produced < 3 && bytes.getD produced 0 ≠ 0 then none
  else some (bytes.take produced)

/-- `memcpy` into a buffer. -/
def copyBytes (buffer : List UInt8) (offset : ℕ) (bytes : List UInt8) : Option (List UInt8) :=
  if offset + bytes.length ≤ buffer.length then
    some (buffer.take offset ++ bytes ++ buffer.drop (offset + bytes.length))
  else none

/-- The loop of `base64_decode`, between two rounds. -/
structure Decoding where
  rest : List CodeUnit
  chunk : List ℕ
  bytes : List UInt8
  read : ℕ
  written : ℕ

/-- What a round leaves: the result with the buffer, or the state of the next round. -/
inductive Round
  | ended (result : Base64DecodeResult) (bytes : List UInt8)
  | next (decoding : Decoding)

/-- The loop returns with what it has decoded. -/
def Decoding.ended (decoding : Decoding) (error : Bool) : Round :=
  .ended ⟨decoding.read, decoding.written, error⟩ decoding.bytes

/-- The bytes of a chunk are written behind those before it. -/
def Decoding.append (decoding : Decoding) (bytes : List UInt8) : Option Decoding :=
  (copyBytes decoding.bytes decoding.written bytes).map fun buffer =>
    { decoding with bytes := buffer, written := decoding.written + (decoding.chunk.length - 1) }

/-- The last chunk is written, and the whole string is read. -/
def Decoding.finish (decoding : Decoding) (length : ℕ) (bytes : List UInt8) : Option Round :=
  (decoding.append bytes).map fun decoding => { decoding with read := length }.ended false

/-- The end of the units. -/
def base64DecodeEnd (length : ℕ) (handling : Base64LastChunkHandling) (decoding : Decoding) :
    Option Round :=
  if 0 < decoding.chunk.length then
    if handling = .stopBeforePartial then some (decoding.ended false)
    else if handling = .strict || decoding.chunk.length = 1 then some (decoding.ended true)
    else match base64DecodeChunk decoding.chunk false with
      | none => none
      | some bytes => decoding.finish length bytes
  else some ({ decoding with read := length }.ended false)

/-- A padding unit, and the units behind it. -/
def base64DecodePadding (length : ℕ) (handling : Base64LastChunkHandling) (decoding : Decoding)
    (rest : List CodeUnit) : Option Round :=
  if decoding.chunk.length < 2 then some (decoding.ended true)
  else
    let rest := base64SkipWhitespace rest
    if decoding.chunk.length = 2 && rest.isEmpty then
      some (decoding.ended (handling ≠ .stopBeforePartial))
    else
      let rest := if decoding.chunk.length = 2 && rest.head? = some (codeUnit '=') then
          base64SkipWhitespace rest.tail
        else rest
      if !rest.isEmpty then some (decoding.ended true)
      else match base64DecodeChunk decoding.chunk (handling = .strict) with
        | none => some (decoding.ended true)
        | some bytes => decoding.finish length bytes

/-- A unit that is no padding, and the units behind it. -/
def base64DecodeUnit (length : ℕ) (url : Bool) (maxLength : ℕ) (decoding : Decoding)
    (unit : CodeUnit) (rest : List CodeUnit) : Option Round :=
  match (base64Unit url unit).bind base64Digit with
  | none => some (decoding.ended true)
  | some digit =>
    let remaining := maxLength - decoding.written
    if (remaining = 1 && decoding.chunk.length = 2) ||
        (remaining = 2 && decoding.chunk.length = 3) then some (decoding.ended false)
    else
      let decoding := { decoding with rest, chunk := decoding.chunk ++ [digit] }
      if decoding.chunk.length = 4 then
        match base64DecodeChunk decoding.chunk false with
        | none => none
        | some bytes =>
          (decoding.append bytes).map fun decoding =>
            let decoding := { decoding with chunk := [], read := length - rest.length }
            if decoding.written = maxLength then decoding.ended false else .next decoding
      else some (.next decoding)

/-- One round of the loop of `base64_decode`. -/
def base64DecodeRound (length : ℕ) (url : Bool) (handling : Base64LastChunkHandling)
    (maxLength : ℕ) (decoding : Decoding) : Option Round :=
  match base64SkipWhitespace decoding.rest with
  | [] => base64DecodeEnd length handling decoding
  | unit :: rest =>
    if unit = codeUnit '=' then base64DecodePadding length handling decoding rest
    else base64DecodeUnit length url maxLength decoding unit rest

/-- The loop of `base64_decode`. -/
def base64DecodeLoop (length : ℕ) (url : Bool) (handling : Base64LastChunkHandling)
    (maxLength : ℕ) : (rounds : ℕ) → Decoding → Option (Base64DecodeResult × List UInt8)
  | 0, _ => none
  | rounds + 1, decoding =>
    match base64DecodeRound length url handling maxLength decoding with
    | none => none
    | some (.ended result bytes) => some (result, bytes)
    | some (.next decoding) => base64DecodeLoop length url handling maxLength rounds decoding

/-- `base64_decode`, with the buffer it leaves. -/
def base64Decode (units : List CodeUnit) (url : Bool) (handling : Base64LastChunkHandling)
    (maxLength : ℕ) (bytes : List UInt8) : Option (Base64DecodeResult × List UInt8) :=
  if maxLength = 0 then some (⟨0, 0, false⟩, bytes)
  else base64DecodeLoop units.length url handling maxLength (units.length + 1)
    ⟨units, [], bytes, 0, 0⟩

/-- The loop of `base64_hex_decode`, over the units from `read` on. -/
def base64HexDecodeLoop (maxLength : ℕ) : (units : List CodeUnit) → (read written : ℕ) →
    (bytes : List UInt8) → Option (Base64DecodeResult × List UInt8)
  | high :: low :: rest, read, written, bytes =>
    if written < maxLength then
      match base64HexDigit high, base64HexDigit low with
      | some high, some low =>
        (copyBytes bytes written [.ofNat ((high <<< 4) ||| low)]).bind fun bytes =>
          base64HexDecodeLoop maxLength rest (read + 2) (written + 1) bytes
      | _, _ => some (⟨read, written, true⟩, bytes)
    else some (⟨read, written, false⟩, bytes)
  | _, read, written, bytes => some (⟨read, written, false⟩, bytes)

/-- `base64_hex_decode`. -/
def base64HexDecode (units : List CodeUnit) (maxLength : ℕ) (bytes : List UInt8) :
    Option (Base64DecodeResult × List UInt8) :=
  if units.length % 2 ≠ 0 then some (⟨0, 0, true⟩, bytes)
  else base64HexDecodeLoop maxLength units 0 0 bytes

/-! ## Strings and views -/

/-- The size of the work buffer `base64_decode_string` asks for. -/
def decodeCapacity (hex : Bool) (units : List CodeUnit) (maxLength : ℕ) : ℕ :=
  let capacity := if hex then units.length / 2 else units.length / 4 * 3 + 2
  if maxLength < capacity then maxLength else capacity

/-- How a string is decoded: as hexadecimal digits, or as base64 with two options. -/
inductive DecodeFormat
  | hex
  | base64 (url : Bool) (handling : Base64LastChunkHandling)
deriving DecidableEq

def DecodeFormat.isHex : DecodeFormat → Bool
  | .hex => true
  | .base64 .. => false

/-- `base64_decode_string`, with the work buffer, whose bytes are `work` before. -/
def base64DecodeString (units : List CodeUnit) (format : DecodeFormat) (maxLength : ℕ)
    (work : ℕ → UInt8) : Option (Base64DecodeResult × List UInt8) :=
  let capacity := decodeCapacity format.isHex units maxLength
  let bytes := (List.range (if capacity = 0 then 1 else capacity)).map work
  match format with
  | .hex => base64HexDecode units maxLength bytes
  | .base64 url handling => base64Decode units url handling maxLength bytes

/-- What these functions throw: a SyntaxError, or a RangeError. -/
inductive ConversionError
  | syntaxError (message : String)
  | rangeError (message : String)
deriving DecidableEq

/-- `base64_syntax_error`. -/
def base64SyntaxError (format : DecodeFormat) : ConversionError :=
  .syntaxError <|
    if format.isHex then "The hex string is malformed." else "The base64 string is malformed."

/-- `SIZE_MAX`. -/
def sizeMax : ℕ := 2 ^ 64 - 1

/-- `base64_from_string`, after the options are read: the elements of the new array. -/
def base64FromString (units : List CodeUnit) (format : DecodeFormat) (work : ℕ → UInt8) :
    Option (Except ConversionError (List UInt8)) :=
  (base64DecodeString units format sizeMax work).map fun (decoded, bytes) =>
    if decoded.error then .error (base64SyntaxError format) else .ok (bytes.take decoded.written)

/-- `base64_set_from_string`, after the options are read and the receiver is validated: the elements
it leaves, and the counts it reports. -/
def base64SetFromString (elements : List UInt8) (units : List CodeUnit) (format : DecodeFormat)
    (work : ℕ → UInt8) : Option (List UInt8 × Except ConversionError (ℕ × ℕ)) :=
  (base64DecodeString units format elements.length work).bind fun (decoded, bytes) =>
    (copyBytes elements 0 (bytes.take decoded.written)).map fun elements =>
      (elements, if decoded.error then .error (base64SyntaxError format)
        else .ok (decoded.read, decoded.written))

/-! ## Encoding -/

/-- `OSEO_MAX_STRING_LENGTH`. -/
def maxStringLength : ℕ := 536870888

/-- The digits of base64, in the standard and in the URL-safe alphabet. -/
def base64Alphabet (url : Bool) : List Char :=
  if url then "ABCDEFGHIJKLMNOPQRSTUVWXYZabcdefghijklmnopqrstuvwxyz0123456789-_".toList
  else "ABCDEFGHIJKLMNOPQRSTUVWXYZabcdefghijklmnopqrstuvwxyz0123456789+/".toList

/-- A digit of an alphabet. -/
def digitUnit (alphabet : List Char) (digit : ℕ) : CodeUnit := codeUnit (alphabet.getD digit '=')

/-- The units of up to three bytes. -/
def base64EncodeGroup (alphabet : List Char) (omitPadding : Bool) (group : List UInt8) :
    List CodeUnit :=
  let byte (index : ℕ) : ℕ := (group.getD index 0).toNat
  let bits := byte 0 <<< 16
  let bits := if 1 < group.length then bits ||| (byte 1 <<< 8) else bits
  let bits := if 2 < group.length then bits ||| byte 2 else bits
  (List.range 4).flatMap fun digit =>
    if digit ≤ group.length then [digitUnit alphabet ((bits >>> (18 - 6 * digit)) &&& 63)]
    else if !omitPadding then [codeUnit '=']
    else []

/-- The loop over the bytes, three at a time. -/
def base64EncodeGroups (alphabet : List Char) (omitPadding : Bool) : List UInt8 → List CodeUnit
  | first :: second :: third :: rest =>
    base64EncodeGroup alphabet omitPadding [first, second, third] ++
      base64EncodeGroups alphabet omitPadding rest
  | [] => []
  | group => base64EncodeGroup alphabet omitPadding group

/-- The digits of hexadecimal text. -/
def hexDigits : List Char := "0123456789abcdef".toList

/-- The loop over the bytes that writes hexadecimal digits. -/
def hexEncode (bytes : List UInt8) : List CodeUnit :=
  bytes.flatMap fun byte =>
    [digitUnit hexDigits (byte.toNat >>> 4), digitUnit hexDigits (byte.toNat &&& 15)]

/-- How bytes are written. -/
inductive EncodeFormat
  | hex
  | base64 (url omitPadding : Bool)
deriving DecidableEq

/-- Whether the size of the text can be computed. -/
def encodedFits (format : EncodeFormat) (count : ℕ) : Bool :=
  match format with
  | .hex => count ≤ sizeMax / 2
  | .base64 .. => count / 3 ≤ sizeMax / 4 - 1

/-- The size of the text. -/
def encodedLength (format : EncodeFormat) (count : ℕ) : ℕ :=
  match format with
  | .hex => count * 2
  | .base64 _ omitPadding => count / 3 * 4 +
      if count % 3 = 0 then 0 else if omitPadding then count % 3 + 1 else 4

/-- `base64_to_string`, after the options are read and the receiver is validated. -/
def base64ToString (bytes : List UInt8) (format : EncodeFormat) :
    Except ConversionError (List CodeUnit) :=
  if !encodedFits format bytes.length then
    .error (.rangeError "The encoded string is too long.")
  else if maxStringLength < encodedLength format bytes.length then
    .error (.rangeError "Invalid string length.")
  else match format with
    | .hex => .ok (hexEncode bytes)
    | .base64 url omitPadding => .ok (base64EncodeGroups (base64Alphabet url) omitPadding bytes)

/-! ## FromBase64 and FromHex

What the decoding loops are for: the operations of ECMA-262, over the units of a string from an
index on. A chunk is the list of the values of its digits, and a conversion returns the bytes it
decoded, what it read, and whether it ends with a SyntaxError.
-/

open List
open Oseo.Library (or_eq_add)

/-- What FromBase64 and FromHex return. -/
structure Conversion where
  read : ℕ
  bytes : List UInt8
  error : Bool
deriving DecidableEq

/-! ## FromBase64 -/

/-- The value of a unit: its position in the alphabet. -/
def digitOf (url : Bool) (unit : CodeUnit) : Option ℕ :=
  (base64Alphabet url).findIdx? fun character => codeUnit character = unit

/-- The 24 bits of a chunk that is padded with zero digits. -/
def chunkValue (chunk : List ℕ) : ℕ :=
  (chunk ++ List.replicate (4 - chunk.length) 0).foldl (fun value digit => value * 64 + digit) 0

/-- DecodeBase64Chunk. -/
def decodeChunk (chunk : List ℕ) (throwOnExtraBits : Bool) : Option (List UInt8) :=
  let value := chunkValue chunk
  let first : UInt8 := .ofNat (value / 65536)
  let second : UInt8 := .ofNat (value / 256)
  let third : UInt8 := .ofNat value
  if chunk.length = 2 then
    if throwOnExtraBits && second ≠ 0 then none else some [first]
  else if chunk.length = 3 then
    if throwOnExtraBits && third ≠ 0 then none else some [first, second]
  else some [first, second, third]

/-- The steps of FromBase64 at the end of the string. -/
def fromBase64End (handling : Base64LastChunkHandling) (index : ℕ) (chunk : List ℕ)
    (bytes : List UInt8) (read : ℕ) : Conversion :=
  if chunk.length = 0 then ⟨index, bytes, false⟩
  else match handling with
    | .stopBeforePartial => ⟨read, bytes, false⟩
    | .strict => ⟨read, bytes, true⟩
    | .loose =>
      if chunk.length = 1 then ⟨read, bytes, true⟩
      else match decodeChunk chunk false with
        | some last => ⟨index, bytes ++ last, false⟩
        | none => ⟨read, bytes, true⟩

/-- The steps of FromBase64 at a padding unit that is followed by `rest`. -/
def fromBase64Padding (handling : Base64LastChunkHandling) (length : ℕ) (chunk : List ℕ)
    (bytes : List UInt8) (read : ℕ) (rest : List CodeUnit) : Conversion :=
  if chunk.length < 2 then ⟨read, bytes, true⟩
  else
    let rest := rest.dropWhile isWhitespace
    if chunk.length = 2 ∧ rest = [] then ⟨read, bytes, handling ≠ .stopBeforePartial⟩
    else
      let rest := if chunk.length = 2 ∧ rest.head? = some (codeUnit '=') then
          rest.tail.dropWhile isWhitespace
        else rest
      if rest ≠ [] then ⟨read, bytes, true⟩
      else match decodeChunk chunk (handling = .strict) with
        | some last => ⟨length, bytes ++ last, false⟩
        | none => ⟨read, bytes, true⟩

/-- FromBase64 from an index on, with the digits of the chunk under way. -/
def fromBase64From (url : Bool) (handling : Base64LastChunkHandling) (maxLength : ℕ) :
    (units : List CodeUnit) → (index : ℕ) → (chunk : List ℕ) → (bytes : List UInt8) →
      (read : ℕ) → Conversion
  | [], index, chunk, bytes, read => fromBase64End handling index chunk bytes read
  | unit :: rest, index, chunk, bytes, read =>
    if isWhitespace unit then
      fromBase64From url handling maxLength rest (index + 1) chunk bytes read
    else if unit = codeUnit '=' then
      fromBase64Padding handling (index + 1 + rest.length) chunk bytes read rest
    else match digitOf url unit with
      | none => ⟨read, bytes, true⟩
      | some digit =>
        let remaining := maxLength - bytes.length
        if remaining = 1 ∧ chunk.length = 2 ∨ remaining = 2 ∧ chunk.length = 3 then
          ⟨read, bytes, false⟩
        else
          let chunk := chunk ++ [digit]
          if chunk.length = 4 then
            match decodeChunk chunk false with
            | none => ⟨read, bytes, true⟩
            | some group =>
              let bytes := bytes ++ group
              if bytes.length = maxLength then ⟨index + 1, bytes, false⟩
              else fromBase64From url handling maxLength rest (index + 1) [] bytes (index + 1)
          else fromBase64From url handling maxLength rest (index + 1) chunk bytes read

/-- FromBase64. -/
def fromBase64 (units : List CodeUnit) (url : Bool) (handling : Base64LastChunkHandling)
    (maxLength : ℕ) : Conversion :=
  if maxLength = 0 then ⟨0, [], false⟩
  else fromBase64From url handling maxLength units 0 [] [] 0

/-! ## FromHex -/

/-- The value of a hexadecimal digit in either case. -/
def hexDigitOf (unit : CodeUnit) : Option ℕ :=
  ("0123456789abcdef".toList.findIdx? fun character => codeUnit character = unit).or
    ("0123456789ABCDEF".toList.findIdx? fun character => codeUnit character = unit)

/-- The loop of FromHex over the pairs of digits. -/
def fromHexFrom (maxLength : ℕ) : List CodeUnit → (bytes : List UInt8) → (read : ℕ) → Conversion
  | high :: low :: rest, bytes, read =>
    if bytes.length < maxLength then
      match hexDigitOf high, hexDigitOf low with
      | some high, some low =>
        fromHexFrom maxLength rest (bytes ++ [.ofNat (high * 16 + low)]) (read + 2)
      | _, _ => ⟨read, bytes, true⟩
    else ⟨read, bytes, false⟩
  | _, bytes, read => ⟨read, bytes, false⟩

/-- FromHex. -/
def fromHex (units : List CodeUnit) (maxLength : ℕ) : Conversion :=
  if units.length % 2 ≠ 0 then ⟨0, [], true⟩ else fromHexFrom maxLength units [] 0

/-! ## Digits -/

/-- Units from 128 on are no character of an ASCII list. -/
lemma findIdx_none {characters : List Char} {unit : CodeUnit}
    (hcharacters : (characters.all fun character => (codeUnit character).toNat < 128) = true)
    (hunit : 128 ≤ unit.toNat) :
    characters.findIdx? (fun character => codeUnit character = unit) = none := by
  rw [findIdx?_eq_none_iff]
  intro character hmem
  have hlt := of_decide_eq_true (all_eq_true.mp hcharacters character hmem)
  rw [decide_eq_false_iff_not]
  intro heq
  rw [heq] at hlt
  omega

/-- A property of a unit that is shown for each ASCII unit, and for the others. -/
lemma unit_cases {P : CodeUnit → Prop} (hascii : ∀ n : Fin 128, P (.ofNat n.val))
    (hother : ∀ unit : CodeUnit, 128 ≤ unit.toNat → P unit) (unit : CodeUnit) : P unit := by
  rcases Nat.lt_or_ge unit.toNat 128 with hlt | hge
  · have heq : unit = .ofNat unit.toNat := UInt16.ofNat_toNat.symm
    rw [heq]
    exact hascii ⟨unit.toNat, hlt⟩
  · exact hother unit hge

lemma between_eq_false {first last : Char} {unit : CodeUnit} (hlast : (codeUnit last).toNat < 128)
    (hunit : 128 ≤ unit.toNat) : between first last unit = false := by
  unfold between
  rw [Bool.and_eq_false_iff]
  right
  rw [decide_eq_false_iff_not, UInt16.le_iff_toNat_le]
  omega

lemma ne_codeUnit {character : Char} {unit : CodeUnit} (hcharacter : (codeUnit character).toNat < 128)
    (hunit : 128 ≤ unit.toNat) : unit ≠ codeUnit character := by
  rintro rfl
  omega

/-- A function that answers the positions of some characters, and no others, finds them. -/
lemma findIdx_eq {characters : List Char} {digit : CodeUnit → Option ℕ}
    (hposition : (characters.zipIdx.all fun (character, index) =>
      digit (codeUnit character) = some index) = true)
    (hunit : ∀ unit, ∀ index ∈ digit unit, characters[index]?.map codeUnit = some unit)
    (unit : CodeUnit) :
    characters.findIdx? (fun character => codeUnit character = unit) = digit unit := by
  have hdigit : ∀ {index : ℕ} {character : Char}, characters[index]? = some character →
      digit (codeUnit character) = some index := fun hget =>
    of_decide_eq_true (all_eq_true.mp hposition _ (mk_mem_zipIdx_iff_getElem?.mpr hget))
  cases hresult : digit unit with
  | none =>
    rw [findIdx?_eq_none_iff]
    intro character hmem
    obtain ⟨index, hget⟩ := getElem?_of_mem hmem
    rw [decide_eq_false_iff_not]
    rintro rfl
    rw [hdigit hget] at hresult
    cases hresult
  | some index =>
    obtain ⟨character, hget, rfl⟩ := Option.map_eq_some_iff.mp (hunit unit index hresult)
    obtain ⟨hlt, rfl⟩ := List.getElem?_eq_some_iff.mp hget
    refine List.findIdx?_eq_some_iff_getElem.mpr ⟨hlt, decide_eq_true rfl, ?_⟩
    intro other hless heq
    have hother := hdigit (getElem?_eq_getElem (Nat.lt_trans hless hlt))
    rw [of_decide_eq_true heq, hresult] at hother
    exact Nat.ne_of_gt hless (Option.some.inj hother)

/-- The digit a unit stands for is its position in the alphabet. -/
lemma base64Digit_eq (url : Bool) (unit : CodeUnit) :
    (base64Unit url unit).bind base64Digit = digitOf url unit := by
  symm
  refine @findIdx_eq _ (fun unit => (base64Unit url unit).bind base64Digit) ?_ (unit_cases ?_ ?_) unit
  · revert url
    decide +kernel
  · revert url
    decide +kernel
  · intro unit hunit
    have hdigit : base64Digit unit = none := by
      unfold base64Digit
      rw [between_eq_false (by decide) hunit, between_eq_false (by decide) hunit,
        between_eq_false (by decide) hunit, if_neg (ne_codeUnit (by decide) hunit),
        if_neg (ne_codeUnit (by decide) hunit)]
      rfl
    have hunit' : base64Unit url unit = some unit := by
      unfold base64Unit
      rw [decide_eq_false (ne_codeUnit (by decide) hunit),
        decide_eq_false (ne_codeUnit (by decide) hunit),
        if_neg (ne_codeUnit (by decide) hunit), if_neg (ne_codeUnit (by decide) hunit)]
      cases url with
      | true => rfl
      | false => rfl
    rw [hunit', Option.bind_some, hdigit]
    exact fun _ hmem => absurd hmem (Option.not_mem_none _)

lemma base64HexDigit_eq (unit : CodeUnit) : base64HexDigit unit = hexDigitOf unit := by
  revert unit
  apply unit_cases
  · decide +kernel
  · intro unit hunit
    unfold base64HexDigit hexDigitOf
    rw [between_eq_false (by decide) hunit, between_eq_false (by decide) hunit,
      between_eq_false (by decide) hunit, findIdx_none (by decide) hunit,
      findIdx_none (by decide) hunit]
    rfl

lemma digitOf_lt {url : Bool} {unit : CodeUnit} {digit : ℕ} (h : digitOf url unit = some digit) :
    digit < 64 := by
  obtain ⟨hlt, -⟩ := findIdx?_eq_some_iff_getElem.mp h
  have hlength : (base64Alphabet url).length = 64 := by
    cases url with
    | true => decide
    | false => decide
  omega

lemma hexDigitOf_lt {unit : CodeUnit} {digit : ℕ} (h : hexDigitOf unit = some digit) :
    digit < 16 := by
  rcases Option.or_eq_some_iff.mp h with h | ⟨-, h⟩
  · exact (findIdx?_eq_some_iff_getElem.mp h).1
  · exact (findIdx?_eq_some_iff_getElem.mp h).1

/-! ## Chunks -/

/-- The bits the loop puts together are the value of the chunk. -/
lemma chunkBits_eq {chunk : List ℕ} (hdigits : ∀ digit ∈ chunk, digit < 64)
    (hlength : chunk.length ≤ 4) : chunkBits chunk = chunkValue chunk := by
  have hstep : ∀ bits digit : ℕ, digit < 64 → (bits <<< 6) ||| digit = bits * 64 + digit := by
    intro bits digit hdigit
    rw [@or_eq_add 6 digit bits hdigit]
    omega
  have hget : ∀ index, chunk.getD index 0 < 64 := by
    intro index
    rw [getD_eq_getElem?_getD]
    cases hget : chunk[index]? with
    | none => decide
    | some digit => exact hdigits digit (mem_of_getElem? hget)
  have hbits : chunkBits chunk = (((0 * 64 + chunk.getD 0 0) * 64 + chunk.getD 1 0) * 64 +
      chunk.getD 2 0) * 64 + chunk.getD 3 0 := by
    show (((((((0 <<< 6) ||| chunk.getD 0 0) <<< 6) ||| chunk.getD 1 0) <<< 6) |||
      chunk.getD 2 0) <<< 6) ||| chunk.getD 3 0 = _
    rw [hstep _ _ (hget 0), hstep _ _ (hget 1), hstep _ _ (hget 2), hstep _ _ (hget 3)]
  rw [hbits]
  match chunk, hlength with
  | [], _ => rfl
  | [_], _ => rfl
  | [_, _], _ => rfl
  | [_, _, _], _ => rfl
  | [_, _, _, _], _ => rfl

lemma base64DecodeChunk_eq {chunk : List ℕ} (hdigits : ∀ digit ∈ chunk, digit < 64)
    (hleast : 2 ≤ chunk.length) (hlength : chunk.length ≤ 4) (throwOnExtraBits : Bool) :
    base64DecodeChunk chunk throwOnExtraBits = decodeChunk chunk throwOnExtraBits := by
  unfold base64DecodeChunk decodeChunk
  dsimp only
  rw [chunkBits_eq hdigits hlength, Nat.shiftRight_eq_div_pow, Nat.shiftRight_eq_div_pow]
  generalize chunkValue chunk = value
  match chunk, hleast, hlength with
  | [_, _], _, _ => cases throwOnExtraBits <;> rfl
  | [_, _, _], _, _ => cases throwOnExtraBits <;> rfl
  | [_, _, _, _], _, _ => cases throwOnExtraBits <;> rfl

lemma decodeChunk_length {chunk : List ℕ} {throwOnExtraBits : Bool} {bytes : List UInt8}
    (hleast : 2 ≤ chunk.length) (hlength : chunk.length ≤ 4)
    (h : decodeChunk chunk throwOnExtraBits = some bytes) : bytes.length = chunk.length - 1 := by
  unfold decodeChunk at h
  dsimp only at h
  split at h
  · next htwo =>
    split at h
    · cases h
    · cases h
      rw [htwo]
      rfl
  · split at h
    · next hthree =>
      split at h
      · cases h
      · cases h
        rw [hthree]
        rfl
    · cases h
      have hfour : chunk.length = 4 := by omega
      rw [hfour]
      rfl

/-- Only extra bits are refused. -/
lemma decodeChunk_total (chunk : List ℕ) : ∃ bytes, decodeChunk chunk false = some bytes := by
  unfold decodeChunk
  split
  · exact ⟨_, rfl⟩
  · split
    · exact ⟨_, rfl⟩
    · exact ⟨_, rfl⟩

end Oseo.BinaryText
