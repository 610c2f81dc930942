import Oseo.BinaryText.Base64

/-!
# The loops decode as FromBase64 and FromHex do

The loops write into a buffer what the operations of ECMA-262 return (`base64Decode_meets`,
`base64HexDecode_meets`). A buffer of the size `base64_decode_string` asks for takes every write.
-/

namespace Oseo.BinaryText

open List
open Oseo.UriCoding (CodeUnit codeUnit between)

open Oseo.Library (or_eq_add)

variable {url : Bool} {handling : Base64LastChunkHandling} {length maxLength index read : ℕ}
  {units rest : List CodeUnit} {unit : CodeUnit} {chunk : List ℕ} {bytes buffer : List UInt8}
  {decoding : Decoding}

/-! ## Buffers -/

/-- A buffer that starts with some bytes. -/
def StartsWith (buffer bytes : List UInt8) : Prop := buffer.take bytes.length = bytes

/-- Bytes that fit are written behind those before them. -/
lemma copyBytes_append {more : List UInt8} (hstarts : StartsWith buffer bytes)
    (hfits : bytes.length + more.length ≤ buffer.length) :
    ∃ buffer', copyBytes buffer bytes.length more = some buffer' ∧
      StartsWith buffer' (bytes ++ more) ∧ buffer'.length = buffer.length := by
  refine ⟨_, if_pos hfits, ?_, ?_⟩
  · unfold StartsWith at hstarts ⊢
    rw [hstarts, length_append, ← length_append]
    exact take_left
  · rw [length_append, length_append, length_take, length_drop]
    omega

/-- A decoding result with its buffer is a conversion, within the maximum and the buffer. -/
structure Meets (maxLength : ℕ) (buffer : List UInt8) (decoded : Base64DecodeResult × List UInt8)
    (conversion : Conversion) : Prop where
  read : decoded.1.read = conversion.read
  written : decoded.1.written = conversion.bytes.length
  error : decoded.1.error = conversion.error
  bytes : StartsWith decoded.2 conversion.bytes
  size : decoded.2.length = buffer.length
  bound : conversion.bytes.length ≤ maxLength

/-! ## The state of the loop -/

/-- The state of the loop that has decoded some chunks, and has the digits of the next one. -/
structure Tracks (length maxLength : ℕ) (buffer : List UInt8) (decoding : Decoding) (index : ℕ)
    (chunk : List ℕ) (bytes : List UInt8) (read : ℕ) : Prop where
  position : index ≤ length
  chunk_eq : decoding.chunk = chunk
  read_eq : decoding.read = read
  written : decoding.written = bytes.length
  starts : StartsWith decoding.bytes bytes
  size : decoding.bytes.length = buffer.length
  capacity : min maxLength (length / 4 * 3 + 2) ≤ buffer.length
  digits : ∀ digit ∈ chunk, digit < 64
  short : chunk.length ≤ 3
  below : bytes.length < maxLength
  room : chunk.length = 3 → bytes.length + 2 ≤ maxLength
  whole : ∃ chunks, bytes.length = 3 * chunks ∧ 4 * chunks + chunk.length ≤ index

/-- The loop answers with what it has. -/
lemma Tracks.ended (h : Tracks length maxLength buffer decoding index chunk bytes read)
    (error : Bool) : Meets maxLength buffer
      (⟨decoding.read, decoding.written, error⟩, decoding.bytes) ⟨read, bytes, error⟩ where
  read := h.read_eq
  written := h.written
  error := rfl
  bytes := h.starts
  size := h.size
  bound := Nat.le_of_lt h.below

/-- The bytes of a chunk are written where they fit into the buffer. -/
lemma append_fits {more : List UInt8} (hwritten : decoding.written = bytes.length)
    (hstarts : StartsWith decoding.bytes bytes) (hmore : more.length = decoding.chunk.length - 1)
    (hfits : bytes.length + more.length ≤ decoding.bytes.length) :
    ∃ buffer', decoding.append more =
        some { decoding with bytes := buffer', written := (bytes ++ more).length } ∧
      StartsWith buffer' (bytes ++ more) ∧ buffer'.length = decoding.bytes.length := by
  obtain ⟨buffer', hcopy, hstarts', hsize⟩ := copyBytes_append hstarts hfits
  refine ⟨buffer', ?_, hstarts', hsize⟩
  unfold Decoding.append
  rw [hwritten, hcopy, length_append, hmore]
  rfl

/-- The bytes of the last chunk fit into the buffer. -/
lemma Tracks.fits (h : Tracks length maxLength buffer decoding index chunk bytes read)
    (hchunk : 2 ≤ chunk.length) : bytes.length + (chunk.length - 1) ≤ maxLength ∧
      bytes.length + (chunk.length - 1) ≤ decoding.bytes.length := by
  obtain ⟨chunks, hbytes, hindex⟩ := h.whole
  have hposition := h.position
  have hcapacity := h.capacity
  have hshort := h.short
  have hbelow := h.below
  have hroom := h.room
  rw [h.size]
  omega

/-- The last chunk is written, and the string is read to its end. -/
lemma Tracks.finish (h : Tracks length maxLength buffer decoding index chunk bytes read)
    {more : List UInt8} (hmore : more.length = chunk.length - 1) (hchunk : 2 ≤ chunk.length) :
    ∃ result, decoding.finish length more = some (.ended result.1 result.2) ∧
      Meets maxLength buffer result ⟨length, bytes ++ more, false⟩ := by
  obtain ⟨hmax, hfits⟩ := h.fits hchunk
  rw [← hmore] at hmax hfits
  obtain ⟨buffer', happend, hstarts, hsize⟩ :=
    append_fits h.written h.starts (by rw [h.chunk_eq]; exact hmore) hfits
  refine ⟨(⟨length, (bytes ++ more).length, false⟩, buffer'), ?_, ?_⟩
  · unfold Decoding.finish
    rw [happend]
    rfl
  · exact ⟨rfl, rfl, rfl, hstarts, hsize.trans h.size, by rwa [length_append]⟩

/-! ## One round -/

/-- What a round does is what FromBase64 does from there. -/
inductive RoundMeets (length maxLength : ℕ) (buffer : List UInt8) (url : Bool)
    (handling : Base64LastChunkHandling) (count : ℕ) : Option Round → Conversion → Prop
  | ended {result : Base64DecodeResult} {bytes : List UInt8} {conversion : Conversion}
      (meets : Meets maxLength buffer (result, bytes) conversion) :
    RoundMeets length maxLength buffer url handling count (some (.ended result bytes)) conversion
  | next {decoding : Decoding} {index : ℕ} {chunk : List ℕ} {bytes : List UInt8} {read : ℕ}
      (tracks : Tracks length maxLength buffer decoding index chunk bytes read)
      (position : index + decoding.rest.length = length) (fewer : decoding.rest.length < count) :
    RoundMeets length maxLength buffer url handling count (some (.next decoding))
      (fromBase64From url handling maxLength decoding.rest index chunk bytes read)

section
variable {count : ℕ} (h : Tracks length maxLength buffer decoding index chunk bytes read)
include h

lemma base64DecodeEnd_meets (hindex : index = length) :
    RoundMeets length maxLength buffer url handling count (base64DecodeEnd length handling decoding)
      (fromBase64End handling index chunk bytes read) := by
  unfold base64DecodeEnd fromBase64End
  rw [h.chunk_eq, hindex]
  by_cases hempty : chunk.length = 0
  · rw [if_neg (by omega), if_pos hempty]
    have hmeets := h.ended false
    exact .ended ⟨rfl, hmeets.written, rfl, hmeets.bytes, hmeets.size, hmeets.bound⟩
  · rw [if_pos (by omega), if_neg hempty]
    cases handling with
    | stopBeforePartial => exact .ended (h.ended false)
    | strict => exact .ended (h.ended true)
    | loose =>
      by_cases hone : chunk.length = 1
      · rw [if_neg nofun, if_pos (by simp [hone])]
        rw [if_pos hone]
        exact .ended (h.ended true)
      · have hshort := h.short
        obtain ⟨more, hmore⟩ := decodeChunk_total chunk
        rw [if_neg nofun, if_neg (by simp [hone]),
          base64DecodeChunk_eq h.digits (by omega) (by omega), hmore]
        dsimp only
        rw [if_neg hone]
        obtain ⟨result, hfinish, hmeets⟩ :=
          h.finish (decodeChunk_length (by omega) (by omega) hmore) (by omega)
        rw [hfinish]
        exact .ended hmeets

lemma base64DecodePadding_meets (rest : List CodeUnit) :
    RoundMeets length maxLength buffer url handling count
      (base64DecodePadding length handling decoding rest)
      (fromBase64Padding handling length chunk bytes read rest) := by
  have hshort := h.short
  unfold base64DecodePadding fromBase64Padding base64SkipWhitespace
  rw [h.chunk_eq]
  by_cases hfew : chunk.length < 2
  · rw [if_pos hfew, if_pos hfew]
    exact .ended (h.ended true)
  · rw [if_neg hfew, if_neg hfew]
    generalize rest.dropWhile isWhitespace = rest
    by_cases hcut : chunk.length = 2 ∧ rest = []
    · rw [if_pos (by simp [hcut]), if_pos hcut]
      exact .ended (h.ended _)
    · rw [if_neg (by simpa using hcut), if_neg hcut]
      have hsecond : (if chunk.length = 2 && rest.head? = some (codeUnit '=') then
          rest.tail.dropWhile isWhitespace else rest) =
          if chunk.length = 2 ∧ rest.head? = some (codeUnit '=') then
            rest.tail.dropWhile isWhitespace else rest := by
        simp only [Bool.and_eq_true, decide_eq_true_eq]
      rw [hsecond]
      generalize (if chunk.length = 2 ∧ rest.head? = some (codeUnit '=') then
        rest.tail.dropWhile isWhitespace else rest) = rest
      cases rest with
      | nil =>
        have hleast : 2 ≤ chunk.length := by omega
        rw [base64DecodeChunk_eq h.digits hleast (by omega)]
        cases hmore : decodeChunk chunk (handling = .strict) with
        | none => exact .ended (h.ended true)
        | some more =>
          obtain ⟨result, hfinish, hmeets⟩ :=
            h.finish (decodeChunk_length hleast (by omega) hmore) hleast
          show RoundMeets _ _ _ _ _ _ (decoding.finish length more) _
          rw [hfinish]
          exact .ended hmeets
      | cons unit rest => exact .ended (h.ended true)

lemma base64DecodeUnit_meets
    (hposition : index + 1 + rest.length = length) (hcount : rest.length < count)
    (hspace : isWhitespace unit = false) (hunit : unit ≠ codeUnit '=') :
    RoundMeets length maxLength buffer url handling count
      (base64DecodeUnit length url maxLength decoding unit rest)
      (fromBase64From url handling maxLength (unit :: rest) index chunk bytes read) := by
  rw [fromBase64From, hspace, if_neg Bool.false_ne_true, if_neg hunit]
  unfold base64DecodeUnit
  rw [base64Digit_eq]
  cases hdigit : digitOf url unit with
  | none => exact .ended (h.ended true)
  | some digit =>
    have hlt := digitOf_lt hdigit
    have hdigits : ∀ other ∈ chunk ++ [digit], other < 64 := by
      intro other hmem
      rcases mem_append.mp hmem with hmem | hmem
      · exact h.digits other hmem
      · rw [mem_singleton.mp hmem]
        exact hlt
    have hshort := h.short
    have hbelow := h.below
    obtain ⟨chunks, hwhole, hindex⟩ := h.whole
    have hread : decoding.read = read := h.read_eq
    have hchunk : decoding.chunk = chunk := h.chunk_eq
    dsimp only
    rw [h.written, hchunk]
    by_cases hstop : maxLength - bytes.length = 1 ∧ chunk.length = 2 ∨
        maxLength - bytes.length = 2 ∧ chunk.length = 3
    · rw [if_pos hstop, if_pos (by simpa using hstop)]
      exact .ended (h.ended false)
    · rw [if_neg hstop, if_neg (by simpa using hstop)]
      by_cases hfour : (chunk ++ [digit]).length = 4
      · -- The chunk is complete.
        obtain ⟨more, hmore⟩ := decodeChunk_total (chunk ++ [digit])
        have hthree : more.length = 3 := by
          rw [decodeChunk_length (by omega) (by omega) hmore, hfour]
        have hlength : chunk.length = 3 := by
          rw [length_append, length_singleton] at hfour
          omega
        have hcapacity := h.capacity
        have hroom := h.room hlength
        have hfits : bytes.length + more.length ≤ decoding.bytes.length := by
          rw [h.size]
          omega
        obtain ⟨buffer', happend, hstarts, hsize⟩ :=
          @append_fits bytes ⟨rest, chunk ++ [digit], decoding.bytes, decoding.read, bytes.length⟩
            more rfl h.starts (by rw [hthree]; exact (congrArg (· - 1) hfour).symm) hfits
        have hposition' : length - rest.length = index + 1 := by omega
        rw [if_pos hfour, if_pos hfour, base64DecodeChunk_eq hdigits (by omega) (by omega), hmore]
        dsimp only
        rw [happend, Option.map_some]
        rw [hposition']
        by_cases hfull : (bytes ++ more).length = maxLength
        · rw [if_pos hfull, if_pos hfull]
          exact .ended ⟨rfl, rfl, rfl, hstarts, hsize.trans h.size, Nat.le_of_eq hfull⟩
        · rw [if_neg hfull, if_neg hfull]
          rw [length_append, hthree] at hfull
          have hnext : Tracks length maxLength buffer
              ⟨rest, [], buffer', index + 1, (bytes ++ more).length⟩ (index + 1) [] (bytes ++ more)
              (index + 1) := by
            refine ⟨by omega, rfl, rfl, rfl, hstarts, hsize.trans h.size, h.capacity, ?_,
              Nat.zero_le 3, ?_, nofun, ⟨chunks + 1, ?_, ?_⟩⟩
            · exact fun digit hmem => absurd hmem not_mem_nil
            · rw [length_append, hthree]
              omega
            · rw [length_append, hthree]
              omega
            · show 4 * (chunks + 1) + 0 ≤ index + 1
              omega
          exact .next hnext hposition hcount
      · rw [if_neg hfour, if_neg hfour]
        rw [length_append, length_singleton] at hfour
        have hnext : Tracks length maxLength buffer
            ⟨rest, chunk ++ [digit], decoding.bytes, decoding.read, bytes.length⟩ (index + 1)
            (chunk ++ [digit]) bytes read := by
          refine ⟨by omega, rfl, hread, rfl, h.starts, h.size, h.capacity, hdigits, ?_, hbelow, ?_,
            ⟨chunks, hwhole, ?_⟩⟩
          · rw [length_append, length_singleton]
            omega
          · intro hthree
            rw [length_append, length_singleton] at hthree
            omega
          · rw [length_append, length_singleton]
            omega
        exact .next hnext hposition hcount

end

/-! ## The loop -/

/-- White space before a unit is passed over. -/
lemma fromBase64From_skip (units : List CodeUnit) (index : ℕ) :
    fromBase64From url handling maxLength units index chunk bytes read =
      fromBase64From url handling maxLength (base64SkipWhitespace units)
        (index + (units.length - (base64SkipWhitespace units).length)) chunk bytes read := by
  unfold base64SkipWhitespace
  induction units generalizing index with
  | nil => rfl
  | cons unit rest ih =>
    cases hspace : isWhitespace unit with
    | false =>
      rw [dropWhile_cons_of_neg (by simp [hspace]), Nat.sub_self]
      rfl
    | true =>
      have hle : (rest.dropWhile isWhitespace).length ≤ rest.length :=
        (dropWhile_suffix isWhitespace).length_le
      have hindex : index + 1 + (rest.length - (rest.dropWhile isWhitespace).length) =
          index + ((unit :: rest).length - (rest.dropWhile isWhitespace).length) := by
        rw [length_cons]
        omega
      rw [fromBase64From, if_pos hspace, dropWhile_cons_of_pos hspace, ih (index + 1), hindex]

/-- The state after white space. -/
lemma Tracks.skip (h : Tracks length maxLength buffer decoding index chunk bytes read)
    {index' : ℕ} (hindex : index ≤ index') (hlength : index' ≤ length) :
    Tracks length maxLength buffer decoding index' chunk bytes read where
  position := hlength
  chunk_eq := h.chunk_eq
  read_eq := h.read_eq
  written := h.written
  starts := h.starts
  size := h.size
  capacity := h.capacity
  digits := h.digits
  short := h.short
  below := h.below
  room := h.room
  whole := by
    obtain ⟨chunks, hbytes, hwhole⟩ := h.whole
    exact ⟨chunks, hbytes, by omega⟩

lemma base64DecodeRound_meets
    (h : Tracks length maxLength buffer decoding index chunk bytes read)
    (hposition : index + decoding.rest.length = length) :
    RoundMeets length maxLength buffer url handling decoding.rest.length
      (base64DecodeRound length url handling maxLength decoding)
      (fromBase64From url handling maxLength decoding.rest index chunk bytes read) := by
  have hle : (base64SkipWhitespace decoding.rest).length ≤ decoding.rest.length :=
    (dropWhile_suffix isWhitespace).length_le
  rw [fromBase64From_skip]
  unfold base64DecodeRound
  have hskip := @Tracks.skip _ _ _ _ _ _ _ _ h
    (index + (decoding.rest.length - (base64SkipWhitespace decoding.rest).length))
    (by omega) (by omega)
  cases hrest : base64SkipWhitespace decoding.rest with
  | nil =>
    rw [hrest] at hskip
    rw [fromBase64From]
    exact base64DecodeEnd_meets hskip (by rw [length_nil]; omega)
  | cons unit rest =>
    rw [hrest, length_cons] at hle hskip
    rw [length_cons]
    have hspace : isWhitespace unit = false := by
      unfold base64SkipWhitespace at hrest
      have hhead := head?_dropWhile_not isWhitespace decoding.rest
      rw [hrest] at hhead
      simpa using hhead
    dsimp only
    by_cases hunit : unit = codeUnit '='
    · rw [if_pos hunit, fromBase64From, hspace, if_neg Bool.false_ne_true, if_pos hunit]
      have hlength : index + (decoding.rest.length - (rest.length + 1)) + 1 + rest.length =
          length := by omega
      rw [hlength]
      exact base64DecodePadding_meets hskip rest
    · rw [if_neg hunit]
      exact base64DecodeUnit_meets hskip (by omega) (by omega) hspace hunit

lemma base64DecodeLoop_meets {rounds : ℕ}
    (h : Tracks length maxLength buffer decoding index chunk bytes read)
    (hposition : index + decoding.rest.length = length)
    (hrounds : decoding.rest.length < rounds) :
    ∃ result, base64DecodeLoop length url handling maxLength rounds decoding = some result ∧
      Meets maxLength buffer result
        (fromBase64From url handling maxLength decoding.rest index chunk bytes read) := by
  induction rounds generalizing decoding index chunk bytes read with
  | zero => omega
  | succ rounds ih =>
    have hround := @base64DecodeRound_meets url handling _ _ _ _ _ _ _ _ h hposition
    rw [base64DecodeLoop]
    generalize base64DecodeRound length url handling maxLength decoding = round at hround
    generalize fromBase64From url handling maxLength decoding.rest index chunk bytes read =
      conversion at hround
    cases hround with
    | ended meets => exact ⟨_, rfl, meets⟩
    | next tracks position fewer =>
      obtain ⟨result, hloop, hmeets⟩ := ih tracks position (by omega)
      exact ⟨result, hloop, hmeets⟩

/-- In a buffer of the size that is asked for, `base64_decode` does what FromBase64 does. -/
theorem base64Decode_meets (units : List CodeUnit) (url : Bool)
    (handling : Base64LastChunkHandling) (maxLength : ℕ)
    (hcapacity : min maxLength (units.length / 4 * 3 + 2) ≤ buffer.length) :
    ∃ result, base64Decode units url handling maxLength buffer = some result ∧
      Meets maxLength buffer result (fromBase64 units url handling maxLength) := by
  unfold base64Decode fromBase64
  by_cases hzero : maxLength = 0
  · rw [if_pos hzero, if_pos hzero]
    exact ⟨_, rfl, rfl, rfl, rfl, rfl, rfl, Nat.zero_le _⟩
  · rw [if_neg hzero, if_neg hzero]
    have htracks : Tracks units.length maxLength buffer ⟨units, [], buffer, 0, 0⟩ 0 [] [] 0 := by
      refine ⟨Nat.zero_le _, rfl, rfl, rfl, rfl, rfl, hcapacity, ?_, Nat.zero_le 3,
        Nat.pos_of_ne_zero hzero, nofun, ⟨0, rfl, Nat.le_refl _⟩⟩
      exact fun digit hmem => absurd hmem not_mem_nil
    exact base64DecodeLoop_meets htracks (Nat.zero_add _) (Nat.lt_succ_self _)

/-! ## Hexadecimal digits -/

lemma base64HexDecodeLoop_meets {written : ℕ} (hwritten : written = bytes.length)
    (hstarts : StartsWith buffer bytes)
    (hcapacity : min maxLength (bytes.length + units.length / 2) ≤ buffer.length)
    (hbound : bytes.length ≤ maxLength) :
    ∃ result, base64HexDecodeLoop maxLength units read written buffer = some result ∧
      Meets maxLength buffer result (fromHexFrom maxLength units bytes read) := by
  fun_induction fromHexFrom maxLength units bytes read generalizing buffer written with
  | case1 high low rest bytes read hlt first second hsecond hfirst ih =>
    have hlength : rest.length / 2 + 1 = (high :: low :: rest).length / 2 := by
      rw [length_cons, length_cons]
      omega
    obtain ⟨buffer', hcopy, hstarts', hsize⟩ := @copyBytes_append bytes buffer
      [.ofNat ((first <<< 4) ||| second)] hstarts (by rw [length_singleton]; omega)
    have hvalue : (first <<< 4) ||| second = first * 16 + second := by
      rw [@or_eq_add 4 second first (hexDigitOf_lt hsecond)]
      omega
    rw [base64HexDecodeLoop, hwritten, if_pos hlt, base64HexDigit_eq, base64HexDigit_eq, hfirst,
      hsecond]
    dsimp only
    rw [hcopy, Option.bind_some]
    rw [hvalue] at hstarts'
    have hlonger : (bytes ++ [UInt8.ofNat (first * 16 + second)]).length = bytes.length + 1 :=
      length_append
    obtain ⟨result, hloop, hmeets⟩ := @ih buffer' (bytes.length + 1) hlonger.symm hstarts'
      (by rw [hlonger, hsize]; omega) (by omega)
    refine ⟨result, hloop, ?_⟩
    exact ⟨hmeets.read, hmeets.written, hmeets.error, hmeets.bytes, hmeets.size.trans hsize,
      hmeets.bound⟩
  | case2 high low rest bytes read hlt hother =>
    refine ⟨(⟨read, written, true⟩, buffer), ?_, rfl, hwritten, rfl, hstarts, rfl, hbound⟩
    rw [base64HexDecodeLoop, hwritten, if_pos hlt, base64HexDigit_eq, base64HexDigit_eq]
    split
    · next hfirst hsecond => exact absurd hsecond (hother _ _ hfirst)
    · rfl
  | case3 high low rest bytes read hge =>
    refine ⟨(⟨read, written, false⟩, buffer), ?_, rfl, hwritten, rfl, hstarts, rfl, hbound⟩
    rw [base64HexDecodeLoop, hwritten, if_neg hge]
  | case4 units bytes read hshort =>
    refine ⟨(⟨read, written, false⟩, buffer), ?_, rfl, hwritten, rfl, hstarts, rfl, hbound⟩
    unfold base64HexDecodeLoop
    split
    · next high low rest => exact absurd rfl (hshort high low rest)
    · rfl

theorem base64HexDecode_meets (units : List CodeUnit) (maxLength : ℕ)
    (hcapacity : min maxLength (units.length / 2) ≤ buffer.length) :
    ∃ result, base64HexDecode units maxLength buffer = some result ∧
      Meets maxLength buffer result (fromHex units maxLength) := by
  unfold base64HexDecode fromHex
  by_cases hodd : units.length % 2 ≠ 0
  · rw [if_pos hodd, if_pos hodd]
    exact ⟨_, rfl, rfl, rfl, rfl, rfl, rfl, Nat.zero_le _⟩
  · rw [if_neg hodd, if_neg hodd]
    have hempty : StartsWith buffer [] := rfl
    exact base64HexDecodeLoop_meets rfl hempty (by rwa [length_nil, Nat.zero_add])
      (Nat.zero_le _)

/-! ## What a conversion reads

The units a conversion has read decode to exactly its bytes, and on a syntax error these are the
bytes of all complete chunks before it.
-/

variable {seen : List CodeUnit}

/-! ## The steps of FromBase64 -/

/-- The bytes of all complete chunks at the front, given the digits of the first one so far. -/
def completeBytes (url : Bool) : List CodeUnit → (chunk : List ℕ) → List UInt8
  | [], _ => []
  | unit :: rest, chunk =>
    if isWhitespace unit then completeBytes url rest chunk
    else match digitOf url unit with
      | none => []
      | some digit =>
        let chunk := chunk ++ [digit]
        if chunk.length = 4 then (decodeChunk chunk false).getD [] ++ completeBytes url rest []
        else completeBytes url rest chunk

lemma digitOf_padding : ∀ url, digitOf url (codeUnit '=') = none := by decide

/-- A conversion that ends with what it has, or has decoded the whole string. -/
def EndsAt (read : ℕ) (bytes : List UInt8) (length : ℕ) (conversion : Conversion) : Prop :=
  (∃ error, conversion = ⟨read, bytes, error⟩) ∨ ∃ bytes', conversion = ⟨length, bytes', false⟩

lemma fromBase64Padding_ends (length : ℕ) (rest : List CodeUnit) :
    EndsAt read bytes length (fromBase64Padding handling length chunk bytes read rest) := by
  unfold fromBase64Padding
  dsimp only
  repeat' split
  all_goals first
    | exact .inl ⟨_, rfl⟩
    | exact .inr ⟨_, rfl⟩

lemma fromBase64End_ends :
    EndsAt read bytes index (fromBase64End handling index chunk bytes read) := by
  unfold fromBase64End
  repeat' split
  all_goals first
    | exact .inl ⟨_, rfl⟩
    | exact .inr ⟨_, rfl⟩

/-- What FromBase64 does at a unit, whatever follows it: it goes on within the chunk or with the
next one, ends with a chunk that reaches the maximum, or ends before the chunk is complete. -/
inductive UnitStep (url : Bool) (handling : Base64LastChunkHandling) (maxLength : ℕ)
    (unit : CodeUnit) (index : ℕ) (chunk : List ℕ) (bytes : List UInt8) (read : ℕ) : Prop
  | inside (chunk' : List ℕ)
      (goes : ∀ rest, fromBase64From url handling maxLength (unit :: rest) index chunk bytes read =
        fromBase64From url handling maxLength rest (index + 1) chunk' bytes read)
      (chunks : ∀ rest, completeBytes url (unit :: rest) chunk = completeBytes url rest chunk')
  | complete (group : List UInt8)
      (goes : ∀ rest, fromBase64From url handling maxLength (unit :: rest) index chunk bytes read =
        fromBase64From url handling maxLength rest (index + 1) [] (bytes ++ group) (index + 1))
      (chunks : ∀ rest, completeBytes url (unit :: rest) chunk =
        group ++ completeBytes url rest [])
  | full (group : List UInt8)
      (ends : ∀ rest, fromBase64From url handling maxLength (unit :: rest) index chunk bytes read =
        ⟨index + 1, bytes ++ group, false⟩)
  | stops (ends : ∀ rest, EndsAt read bytes (index + 1 + rest.length)
      (fromBase64From url handling maxLength (unit :: rest) index chunk bytes read))
      (chunks : ∀ rest, (fromBase64From url handling maxLength (unit :: rest) index chunk bytes
        read).error = true → completeBytes url (unit :: rest) chunk = [])

lemma fromBase64From_step : UnitStep url handling maxLength unit index chunk bytes read := by
  cases hspace : isWhitespace unit with
  | true =>
    apply UnitStep.inside chunk
    · intro rest
      rw [fromBase64From, if_pos hspace]
    · intro rest
      rw [completeBytes, if_pos hspace]
  | false =>
    by_cases hunit : unit = codeUnit '='
    · apply UnitStep.stops
      · intro rest
        rw [fromBase64From, hspace, if_neg Bool.false_ne_true, if_pos hunit]
        exact fromBase64Padding_ends _ rest
      · intro rest _
        rw [completeBytes, hspace, if_neg Bool.false_ne_true, hunit, digitOf_padding]
    · have hgoes : ∀ rest, fromBase64From url handling maxLength (unit :: rest) index chunk bytes
          read = _ := fun rest => by
        rw [fromBase64From, hspace, if_neg Bool.false_ne_true, if_neg hunit]
      have hchunks : ∀ rest, completeBytes url (unit :: rest) chunk = _ := fun rest => by
        rw [completeBytes, hspace, if_neg Bool.false_ne_true]
      cases hdigit : digitOf url unit with
      | none =>
        rw [hdigit] at hgoes hchunks
        exact .stops (fun rest => .inl ⟨true, hgoes rest⟩) fun rest _ => hchunks rest
      | some digit =>
        rw [hdigit] at hgoes hchunks
        dsimp only at hgoes hchunks
        by_cases hstop : maxLength - bytes.length = 1 ∧ chunk.length = 2 ∨
            maxLength - bytes.length = 2 ∧ chunk.length = 3
        · apply UnitStep.stops
          · intro rest
            rw [hgoes rest, if_pos hstop]
            exact .inl ⟨false, rfl⟩
          · intro rest herror
            rw [hgoes rest, if_pos hstop] at herror
            cases herror
        · by_cases hfour : (chunk ++ [digit]).length = 4
          · obtain ⟨group, hgroup⟩ := decodeChunk_total (chunk ++ [digit])
            by_cases hfull : (bytes ++ group).length = maxLength
            · apply UnitStep.full group
              intro rest
              rw [hgoes rest, if_neg hstop, if_pos hfour, hgroup]
              exact if_pos hfull
            · apply UnitStep.complete group
              · intro rest
                rw [hgoes rest, if_neg hstop, if_pos hfour, hgroup]
                exact if_neg hfull
              · intro rest
                rw [hchunks rest, if_pos hfour, hgroup]
                rfl
          · apply UnitStep.inside (chunk ++ [digit])
            · intro rest
              rw [hgoes rest, if_neg hstop, if_neg hfour]
            · intro rest
              rw [hchunks rest, if_neg hfour]

/-! ## The units that were read -/

/-- Units decode to some bytes. -/
def Decodes (url : Bool) (handling : Base64LastChunkHandling) (maxLength : ℕ)
    (units : List CodeUnit) (bytes : List UInt8) : Prop :=
  (fromBase64From url handling maxLength units 0 [] [] 0).bytes = bytes ∧
    (fromBase64From url handling maxLength units 0 [] [] 0).error = false

lemma take_seen (hread : read ≤ seen.length) : (seen ++ rest).take read = seen.take read ++ [] := by
  rw [append_nil]
  exact take_append_of_le_length hread

/-- How far a conversion has come that has seen some units: it is where it would be with any other
units behind them, and after its last complete chunk it was where it would be with no others. -/
structure HasSeen (url : Bool) (handling : Base64LastChunkHandling) (maxLength : ℕ)
    (seen : List CodeUnit) (index : ℕ) (chunk : List ℕ) (bytes : List UInt8) (read : ℕ) : Prop where
  position : seen.length = index
  read_le : read ≤ index
  goes : ∀ tail, fromBase64From url handling maxLength (seen ++ tail) 0 [] [] 0 =
    fromBase64From url handling maxLength tail index chunk bytes read
  check : ∀ tail, fromBase64From url handling maxLength (seen.take read ++ tail) 0 [] [] 0 =
    fromBase64From url handling maxLength tail read [] bytes read

/-- What was read decodes to the bytes where the conversion ends. -/
lemma HasSeen.ends (h : HasSeen url handling maxLength seen index chunk bytes read)
    (hends : EndsAt read bytes (seen ++ units).length
      (fromBase64From url handling maxLength units index chunk bytes read)) :
    Decodes url handling maxLength ((seen ++ units).take
        (fromBase64From url handling maxLength units index chunk bytes read).read)
      (fromBase64From url handling maxLength units index chunk bytes read).bytes := by
  have hposition := h.position
  have hread := h.read_le
  rcases hends with ⟨error, heq⟩ | ⟨bytes', heq⟩
  · have htake : (seen ++ units).take read = seen.take read ++ [] := take_seen (by omega)
    unfold Decodes
    rw [heq]
    rw [htake, h.check []]
    exact ⟨rfl, rfl⟩
  · unfold Decodes
    rw [heq]
    rw [take_length, h.goes units, heq]
    exact ⟨rfl, rfl⟩

theorem HasSeen.decodes (h : HasSeen url handling maxLength seen index chunk bytes read) :
    Decodes url handling maxLength ((seen ++ units).take
        (fromBase64From url handling maxLength units index chunk bytes read).read)
      (fromBase64From url handling maxLength units index chunk bytes read).bytes := by
  induction units generalizing seen index chunk bytes read with
  | nil =>
    apply h.ends
    rw [append_nil, h.position]
    exact fromBase64End_ends
  | cons unit rest ih =>
    have hposition := h.position
    have hread := h.read_le
    have hone : (seen ++ [unit]).length = index + 1 := by
      rw [length_append, hposition]
      rfl
    have hsnoc : ∀ tail, seen ++ unit :: tail = (seen ++ [unit]) ++ tail :=
      fun tail => append_cons seen unit tail
    have htake : (seen ++ [unit]).take (index + 1) = seen ++ [unit] := by
      rw [← hone, take_length]
    have hstep : UnitStep url handling maxLength unit index chunk bytes read := fromBase64From_step
    cases hstep with
    | inside chunk' goes chunks =>
      rw [goes rest, hsnoc rest]
      apply ih
      refine ⟨hone, by omega, fun tail => ?_, fun tail => ?_⟩
      · rw [← hsnoc tail, h.goes, goes]
      · rw [take_append_of_le_length (by omega)]
        exact h.check tail
    | complete group goes chunks =>
      rw [goes rest, hsnoc rest]
      apply ih
      refine ⟨hone, Nat.le_refl _, fun tail => ?_, fun tail => ?_⟩
      · rw [← hsnoc tail, h.goes, goes]
      · rw [htake, ← hsnoc tail, h.goes, goes]
    | full group ends =>
      rw [ends rest]
      unfold Decodes
      dsimp only
      rw [hsnoc rest, take_append_of_le_length (by omega), htake, ← append_nil (seen ++ [unit]),
        ← hsnoc [], h.goes, ends]
      exact ⟨rfl, rfl⟩
    | stops ends chunks =>
      apply h.ends
      have hlength : (seen ++ unit :: rest).length = index + 1 + rest.length := by
        rw [length_append, length_cons]
        omega
      rw [hlength]
      exact ends rest

/-- The units FromBase64 has read decode to exactly its bytes. -/
lemma fromBase64_take (units : List CodeUnit) (url : Bool) (handling : Base64LastChunkHandling)
    (maxLength : ℕ) :
    (fromBase64 (units.take (fromBase64 units url handling maxLength).read) url handling
        maxLength).bytes = (fromBase64 units url handling maxLength).bytes ∧
      (fromBase64 (units.take (fromBase64 units url handling maxLength).read) url handling
        maxLength).error = false := by
  unfold fromBase64
  by_cases hzero : maxLength = 0
  · rw [if_pos hzero, if_pos hzero]
    exact ⟨rfl, rfl⟩
  · rw [if_neg hzero, if_neg hzero]
    have hstart : HasSeen url handling maxLength [] 0 [] [] 0 :=
      ⟨rfl, Nat.le_refl 0, fun _ => rfl, fun _ => rfl⟩
    exact hstart.decodes

/-! ## Complete chunks -/

/-- A conversion that ends with an error has the bytes of all complete chunks before it. -/
lemma fromBase64From_error
    (herror : (fromBase64From url handling maxLength units index chunk bytes read).error = true) :
    (fromBase64From url handling maxLength units index chunk bytes read).bytes =
      bytes ++ completeBytes url units chunk := by
  have hends : ∀ {read : ℕ} {bytes : List UInt8} {length : ℕ} {conversion : Conversion},
      EndsAt read bytes length conversion → conversion.error = true →
        conversion.bytes = bytes := by
    rintro read bytes length conversion (⟨error, rfl⟩ | ⟨bytes', rfl⟩) herror
    · rfl
    · cases herror
  induction units generalizing index chunk bytes read with
  | nil =>
    rw [completeBytes, append_nil]
    exact hends fromBase64End_ends herror
  | cons unit rest ih =>
    have hstep : UnitStep url handling maxLength unit index chunk bytes read := fromBase64From_step
    cases hstep with
    | inside chunk' goes chunks =>
      rw [goes rest] at herror ⊢
      rw [ih herror, chunks rest]
    | complete group goes chunks =>
      rw [goes rest] at herror ⊢
      rw [ih herror, chunks rest, append_assoc]
    | full group ends =>
      rw [ends rest] at herror
      cases herror
    | stops ends chunks =>
      rw [chunks rest herror, append_nil]
      exact hends (ends rest) herror

lemma fromBase64_error (herror : (fromBase64 units url handling maxLength).error = true) :
    (fromBase64 units url handling maxLength).bytes = completeBytes url units [] := by
  unfold fromBase64 at herror ⊢
  by_cases hzero : maxLength = 0
  · rw [if_pos hzero] at herror
    cases herror
  · rw [if_neg hzero] at herror ⊢
    exact fromBase64From_error herror

/-- The size of the string is all that bounds a conversion with a maximum it does not reach. -/
lemma fromBase64From_unbounded {chunks bound maxLength' : ℕ} (hbytes : bytes.length = 3 * chunks)
    (hindex : 4 * chunks + chunk.length ≤ index) (hshort : chunk.length ≤ 3)
    (hbound : (index + units.length) / 4 * 3 + 3 ≤ bound) (hmax : bound ≤ maxLength)
    (hmax' : bound ≤ maxLength') :
    fromBase64From url handling maxLength units index chunk bytes read =
      fromBase64From url handling maxLength' units index chunk bytes read := by
  induction units generalizing index chunk bytes read chunks with
  | nil => rfl
  | cons unit rest ih =>
    have hposition : index + 1 + rest.length = index + (unit :: rest).length := by
      rw [length_cons]
      omega
    have hinside : ∀ chunk' : List ℕ, chunk'.length ≤ chunk.length + 1 → chunk'.length ≤ 3 →
        fromBase64From url handling maxLength rest (index + 1) chunk' bytes read =
          fromBase64From url handling maxLength' rest (index + 1) chunk' bytes read :=
      fun chunk' hlonger hshort' => ih hbytes (by omega) hshort' (by rwa [hposition])
    rw [fromBase64From, fromBase64From]
    split
    · exact hinside chunk (by omega) hshort
    · split
      · rfl
      · cases hdigit : digitOf url unit with
        | none => rfl
        | some digit =>
          have hlength : (chunk ++ [digit]).length = chunk.length + 1 := length_append
          rw [length_cons] at hbound
          have hroom : ∀ maxLength, bound ≤ maxLength →
              ¬ (maxLength - bytes.length = 1 ∧ chunk.length = 2 ∨
                maxLength - bytes.length = 2 ∧ chunk.length = 3) := by
            intro maxLength hle
            omega
          dsimp only
          rw [if_neg (hroom maxLength hmax), if_neg (hroom maxLength' hmax')]
          by_cases hfour : (chunk ++ [digit]).length = 4
          · rw [if_pos hfour, if_pos hfour]
            cases hgroup : decodeChunk (chunk ++ [digit]) false with
            | none => rfl
            | some group =>
              have hthree : group.length = 3 := by
                rw [decodeChunk_length (by omega) (by omega) hgroup, hfour]
              have hmore : (bytes ++ group).length = 3 * (chunks + 1) := by
                rw [length_append, hthree, hbytes]
                omega
              have hfull : ∀ maxLength, bound ≤ maxLength →
                  (bytes ++ group).length ≠ maxLength := by
                intro maxLength hle
                omega
              dsimp only
              rw [if_neg (hfull maxLength hmax), if_neg (hfull maxLength' hmax')]
              have hnext : 4 * (chunks + 1) + ([] : List ℕ).length ≤ index + 1 := by
                rw [length_nil]
                omega
              exact ih hmore hnext (Nat.zero_le 3) (by omega)
          · rw [if_neg hfour, if_neg hfour]
            exact hinside _ (by omega) (by omega)

lemma fromBase64_unbounded {maxLength' : ℕ} (hmax : units.length / 4 * 3 + 3 ≤ maxLength)
    (hmax' : units.length / 4 * 3 + 3 ≤ maxLength') :
    fromBase64 units url handling maxLength = fromBase64 units url handling maxLength' := by
  unfold fromBase64
  rw [if_neg (by omega), if_neg (by omega)]
  exact @fromBase64From_unbounded _ _ _ _ _ _ _ _ 0 _ _ rfl (Nat.le_refl 0) (Nat.zero_le 3)
    (by rw [Nat.zero_add]) hmax hmax'

/-! ## Hexadecimal digits -/

/-- The bytes of all pairs of digits at the front. -/
def completePairs : List CodeUnit → List UInt8
  | high :: low :: rest =>
    match hexDigitOf high, hexDigitOf low with
    | some high, some low => .ofNat (high * 16 + low) :: completePairs rest
    | _, _ => []
  | _ => []

/-- What FromHex does from a pair on: it has read some pairs, which decode to its bytes. -/
structure ReadsPairs (maxLength : ℕ) (units : List CodeUnit) (bytes : List UInt8) (read : ℕ)
    (conversion : Conversion) : Prop where
  used : ∃ used rest, units = used ++ rest ∧ used.length % 2 = 0 ∧
    conversion.read = read + used.length ∧ ∀ read', fromHexFrom maxLength used bytes read' =
      ⟨read' + used.length, conversion.bytes, false⟩
  error : conversion.error = true → conversion.bytes = bytes ++ completePairs units

lemma fromHexFrom_reads (maxLength : ℕ) (units : List CodeUnit) (bytes : List UInt8) (read : ℕ) :
    ReadsPairs maxLength units bytes read (fromHexFrom maxLength units bytes read) := by
  have hstays : ∀ (units : List CodeUnit) (bytes : List UInt8) (read : ℕ) (error : Bool),
      (error = true → completePairs units = []) →
        ReadsPairs maxLength units bytes read ⟨read, bytes, error⟩ := by
    intro units bytes read error herror
    refine ⟨⟨[], units, rfl, rfl, rfl, fun read' => rfl⟩, fun h => ?_⟩
    rw [herror h, append_nil]
  fun_induction fromHexFrom maxLength units bytes read with
  | case1 high low rest bytes read hlt first second hsecond hfirst ih =>
    obtain ⟨⟨used, left, hsplit, heven, hread, hgoes⟩, herror⟩ := ih
    refine ⟨⟨high :: low :: used, left, by rw [hsplit]; rfl, ?_, ?_, fun read' => ?_⟩, fun h => ?_⟩
    · rw [length_cons, length_cons]
      omega
    · rw [hread, length_cons, length_cons]
      omega
    · rw [fromHexFrom, if_pos hlt, hfirst, hsecond]
      dsimp only
      rw [hgoes (read' + 2), length_cons, length_cons]
      congr 1
      omega
    · rw [herror h, completePairs, hfirst, hsecond, append_assoc]
      rfl
  | case2 high low rest bytes read hlt hother =>
    apply hstays
    intro _
    rw [completePairs]
    split
    · next hfirst hsecond => exact absurd hsecond (hother _ _ hfirst)
    · rfl
  | case3 high low rest bytes read hge => exact hstays _ _ _ _ nofun
  | case4 units bytes read hshort => exact hstays _ _ _ _ nofun

lemma fromHex_take (units : List CodeUnit) (maxLength : ℕ) :
    (fromHex (units.take (fromHex units maxLength).read) maxLength).bytes =
        (fromHex units maxLength).bytes ∧
      (fromHex (units.take (fromHex units maxLength).read) maxLength).error = false := by
  unfold fromHex
  by_cases hodd : units.length % 2 ≠ 0
  · rw [if_pos hodd]
    exact ⟨rfl, rfl⟩
  · obtain ⟨⟨used, rest, hsplit, heven, hread, hgoes⟩, -⟩ := fromHexFrom_reads maxLength units [] 0
    have htake : units.take (fromHexFrom maxLength units [] 0).read = used := by
      rw [hread, Nat.zero_add]
      conv_lhs => rw [hsplit]
      exact take_left
    rw [if_neg hodd, htake, if_neg (by omega), hgoes 0]
    exact ⟨rfl, rfl⟩

lemma fromHex_error (herror : (fromHex units maxLength).error = true) :
    (fromHex units maxLength).bytes =
      if units.length % 2 = 0 then completePairs units else [] := by
  unfold fromHex at herror ⊢
  by_cases hodd : units.length % 2 ≠ 0
  · rw [if_pos hodd, if_neg hodd]
  · rw [if_neg hodd] at herror ⊢
    rw [if_pos (by omega)]
    exact (fromHexFrom_reads maxLength units [] 0).error herror

lemma fromHexFrom_unbounded {maxLength' : ℕ} (hmax : bytes.length + units.length / 2 ≤ maxLength)
    (hmax' : bytes.length + units.length / 2 ≤ maxLength') :
    fromHexFrom maxLength units bytes read = fromHexFrom maxLength' units bytes read := by
  fun_induction fromHexFrom maxLength units bytes read with
  | case1 high low rest bytes read hlt first second hsecond hfirst ih =>
    have hlength : (high :: low :: rest).length / 2 = rest.length / 2 + 1 := by
      rw [length_cons, length_cons]
      omega
    have hlonger : (bytes ++ [UInt8.ofNat (first * 16 + second)]).length = bytes.length + 1 :=
      length_append
    rw [fromHexFrom, if_pos (by omega), hfirst, hsecond]
    exact ih (by omega) (by omega)
  | case2 high low rest bytes read hlt hother =>
    have hlength : (high :: low :: rest).length / 2 = rest.length / 2 + 1 := by
      rw [length_cons, length_cons]
      omega
    rw [fromHexFrom, if_pos (by omega)]
    split
    · next hfirst hsecond => exact absurd hsecond (hother _ _ hfirst)
    · rfl
  | case3 high low rest bytes read hge =>
    rw [length_cons, length_cons] at hmax
    omega
  | case4 units bytes read hshort =>
    unfold fromHexFrom
    split
    · next high low rest => exact absurd rfl (hshort high low rest)
    · rfl

lemma fromHex_unbounded {maxLength' : ℕ} (hmax : units.length / 2 ≤ maxLength)
    (hmax' : units.length / 2 ≤ maxLength') :
    fromHex units maxLength = fromHex units maxLength' := by
  have hsame : fromHexFrom maxLength units [] 0 = fromHexFrom maxLength' units [] 0 :=
    fromHexFrom_unbounded (by rwa [length_nil, Nat.zero_add])
      (by rwa [length_nil, Nat.zero_add])
  unfold fromHex
  rw [hsame]

end Oseo.BinaryText
