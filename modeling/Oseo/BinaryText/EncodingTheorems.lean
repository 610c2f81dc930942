import Oseo.BinaryText.DecodingTheorems

/-!
# Text decodes to its bytes

The text `toBase64` and `toHex` write is decoded to the bytes it was written for
(`fromBase64_encoded`, `fromHex_encoded`).
-/

namespace Oseo.BinaryText

section

open Nat
open List
open Oseo.Library (or_eq_add)
open Oseo.UriCoding (CodeUnit codeUnit between)

variable {url omitPadding : Bool} {handling : Base64LastChunkHandling} {maxLength index read : ℕ}
  {units rest : List CodeUnit} {chunk : List ℕ} {bytes acc : List UInt8}

/-! ## Digits -/

/-- A digit of base64. -/
abbrev digit64 (url : Bool) (digit : ℕ) : CodeUnit := digitUnit (base64Alphabet url) digit

lemma digit64_facts : ∀ (url : Bool) (digit : Fin 64),
    isWhitespace (digit64 url digit) = false ∧ digit64 url digit ≠ codeUnit '=' ∧
      digitOf url (digit64 url digit) = some digit.val := by
  simp only [← base64Digit_eq]
  decide +kernel

/-- A digit of a chunk that is not its last one. -/
lemma fromBase64From_digit {digit : ℕ} (hdigit : digit < 64) (hchunk : chunk.length < 3)
    (hroom : chunk.length = 2 → bytes.length + 2 ≤ maxLength) :
    fromBase64From url handling maxLength (digit64 url digit :: rest) index chunk bytes read =
      fromBase64From url handling maxLength rest (index + 1) (chunk ++ [digit]) bytes read := by
  obtain ⟨hspace, hunit, hvalue⟩ := digit64_facts url ⟨digit, hdigit⟩
  have hlength : (chunk ++ [digit]).length = chunk.length + 1 := length_append
  have hstop : ¬ (maxLength - bytes.length = 1 ∧ chunk.length = 2 ∨
      maxLength - bytes.length = 2 ∧ chunk.length = 3) := by
    rintro (⟨hone, htwo⟩ | ⟨-, hthree⟩)
    · have hmore := hroom htwo
      omega
    · omega
  rw [fromBase64From, hspace, if_neg Bool.false_ne_true, if_neg hunit, hvalue]
  dsimp only
  rw [if_neg hstop, if_neg (by omega)]

/-- Digits of a chunk without its last one. -/
lemma fromBase64From_digits {digits : List ℕ} (hdigits : ∀ digit ∈ digits, digit < 64)
    (hchunk : chunk.length + digits.length ≤ 3)
    (hroom : chunk.length + digits.length = 3 → bytes.length + 2 ≤ maxLength) :
    fromBase64From url handling maxLength (digits.map (digit64 url) ++ rest) index chunk bytes read =
      fromBase64From url handling maxLength rest (index + digits.length) (chunk ++ digits) bytes
        read := by
  induction digits generalizing index chunk with
  | nil =>
    rw [append_nil]
    rfl
  | cons digit digits ih =>
    rw [length_cons] at hchunk hroom
    have hlength : (chunk ++ [digit]).length = chunk.length + 1 := length_append
    rw [map_cons, cons_append, fromBase64From_digit (hdigits digit mem_cons_self)
      (by omega) (fun htwo => hroom (by omega)),
      ih (fun digit hmem => hdigits digit (mem_cons_of_mem _ hmem)) (by omega)
        (fun hthree => hroom (by omega)), append_assoc, length_cons, add_assoc,
      add_comm 1]
    rfl

/-- The last digit of a chunk. -/
lemma fromBase64From_last {digit : ℕ} {group : List UInt8} (hdigit : digit < 64)
    (hchunk : chunk.length = 3) (hgroup : decodeChunk (chunk ++ [digit]) false = some group)
    (hroom : bytes.length + 3 ≤ maxLength) :
    fromBase64From url handling maxLength (digit64 url digit :: rest) index chunk bytes read =
      if bytes.length + 3 = maxLength then ⟨index + 1, bytes ++ group, false⟩
      else fromBase64From url handling maxLength rest (index + 1) [] (bytes ++ group)
        (index + 1) := by
  obtain ⟨hspace, hunit, hvalue⟩ := digit64_facts url ⟨digit, hdigit⟩
  have hlength : (chunk ++ [digit]).length = 4 := by
    rw [length_append, hchunk]
    rfl
  have hthree : (bytes ++ group).length = bytes.length + 3 := by
    rw [length_append, decodeChunk_length (by omega) (by omega) hgroup, hlength]
  have hstop : ¬ (maxLength - bytes.length = 1 ∧ chunk.length = 2 ∨
      maxLength - bytes.length = 2 ∧ chunk.length = 3) := by omega
  rw [fromBase64From, hspace, if_neg Bool.false_ne_true, if_neg hunit, hvalue]
  dsimp only
  rw [if_neg hstop, if_pos hlength, hgroup]
  dsimp only
  rw [hthree]

/-! ## Groups -/

/-- The 24 bits of a group. -/
def groupValue (first second third : UInt8) : ℕ :=
  first.toNat * 65536 + second.toNat * 256 + third.toNat

lemma group_bits (first second third : UInt8) :
    (first.toNat <<< 16 ||| second.toNat <<< 8) ||| third.toNat =
      groupValue first second third := by
  have hsecond := second.toNat_lt
  have hthird := third.toNat_lt
  have hlow : second.toNat <<< 8 ||| third.toNat = 2 ^ 8 * second.toNat + third.toNat :=
    or_eq_add (by omega)
  rw [Nat.or_assoc, hlow, @or_eq_add 16 _ _ (by omega)]
  unfold groupValue
  omega

lemma digit_of_bits (bits shift : ℕ) : (bits >>> shift) &&& 63 = bits / 2 ^ shift % 64 := by
  rw [shiftRight_eq_div_pow]
  exact and_two_pow_sub_one_eq_mod _ 6

/-- The digits of a group. -/
def groupDigits (value : ℕ) : List ℕ :=
  (List.range 4).map fun digit => value / 2 ^ (18 - 6 * digit) % 64

lemma groupDigits_eq (value : ℕ) : groupDigits value =
    [value / 262144 % 64, value / 4096 % 64, value / 64 % 64, value % 64] := by
  have hlist : groupDigits value = [value / 2 ^ 18 % 64, value / 2 ^ 12 % 64, value / 2 ^ 6 % 64,
      value / 2 ^ 0 % 64] := rfl
  rw [hlist, Nat.pow_zero, Nat.div_one]
  rfl

lemma map_groupDigits (value : ℕ) {count : ℕ} (h : count ≤ 4) :
    ((groupDigits value).take count).map (digit64 url) =
      (range count).map fun digit => digit64 url (value / 2 ^ (18 - 6 * digit) % 64) := by
  unfold groupDigits
  rw [← map_take, take_range, min_eq_left h, map_map]
  rfl

lemma encodeGroup_three (first second third : UInt8) :
    base64EncodeGroup (base64Alphabet url) omitPadding [first, second, third] =
      (groupDigits (groupValue first second third)).map (digit64 url) := by
  have hshow (alphabet : List Char) : base64EncodeGroup alphabet omitPadding [first, second, third] =
      (range 4).map fun digit => digitUnit alphabet
        ((((first.toNat <<< 16 ||| second.toNat <<< 8) ||| third.toNat) >>> (18 - 6 * digit)) &&&
          63) := rfl
  rw [hshow, group_bits]
  simp only [digit_of_bits]
  exact (map_groupDigits _ (le_refl 4)).symm

lemma encodeGroup_two (first second : UInt8) :
    base64EncodeGroup (base64Alphabet url) omitPadding [first, second] =
      ((groupDigits (groupValue first second 0)).take 3).map (digit64 url) ++
        if omitPadding then [] else [codeUnit '='] := by
  have hbits : first.toNat <<< 16 ||| second.toNat <<< 8 = groupValue first second 0 := by
    have hgroup := group_bits first second 0
    rwa [show (0 : UInt8).toNat = 0 from rfl, or_zero] at hgroup
  have hshow (alphabet : List Char) : base64EncodeGroup alphabet omitPadding [first, second] =
      ((range 3).map fun digit => digitUnit alphabet
        (((first.toNat <<< 16 ||| second.toNat <<< 8) >>> (18 - 6 * digit)) &&& 63)) ++
          if omitPadding then [] else [codeUnit '='] := by
    cases omitPadding with
    | true => rfl
    | false => rfl
  rw [hshow, hbits, map_groupDigits _ (by decide)]
  simp only [digit_of_bits]

lemma encodeGroup_one (first : UInt8) :
    base64EncodeGroup (base64Alphabet url) omitPadding [first] =
      ((groupDigits (groupValue first 0 0)).take 2).map (digit64 url) ++
        if omitPadding then [] else [codeUnit '=', codeUnit '='] := by
  have hbits : first.toNat <<< 16 = groupValue first 0 0 := by
    have hgroup := group_bits first 0 0
    rwa [show (0 : UInt8).toNat = 0 from rfl, zero_shiftLeft, or_zero, or_zero] at hgroup
  have hshow (alphabet : List Char) : base64EncodeGroup alphabet omitPadding [first] =
      ((range 2).map fun digit => digitUnit alphabet
        ((first.toNat <<< 16 >>> (18 - 6 * digit)) &&& 63)) ++
          if omitPadding then [] else [codeUnit '=', codeUnit '='] := by
    cases omitPadding with
    | true => rfl
    | false => rfl
  rw [hshow, hbits, map_groupDigits _ (by decide)]
  simp only [digit_of_bits]

lemma groupDigits_lt {value digit : ℕ} (hmem : digit ∈ groupDigits value) : digit < 64 := by
  obtain ⟨position, -, rfl⟩ := mem_map.mp hmem
  exact mod_lt _ (by decide)

lemma byte_eq {n : ℕ} {byte : UInt8} (h : n % 256 = byte.toNat) : UInt8.ofNat n = byte := by
  apply UInt8.toNat_inj.mp
  rw [UInt8.toNat_ofNat']
  exact h

/-- The bytes of a group are those of its value. -/
lemma groupValue_bytes (first second third : UInt8) :
    UInt8.ofNat (groupValue first second third / 65536) = first ∧
      UInt8.ofNat (groupValue first second third / 256) = second ∧
      UInt8.ofNat (groupValue first second third) = third := by
  have hfirst := first.toNat_lt
  have hsecond := second.toNat_lt
  have hthird := third.toNat_lt
  unfold groupValue
  refine ⟨byte_eq ?_, byte_eq ?_, byte_eq ?_⟩
  · omega
  · omega
  · omega

/-- Digits of a group without zeros at the end stand for its value. -/
lemma chunkValue_take {value count : ℕ} (hvalue : value < 16777216) (hleast : 2 ≤ count)
    (hmost : count ≤ 4) (hzeros : value % 64 ^ (4 - count) = 0) :
    chunkValue ((groupDigits value).take count) = value := by
  have hshow : ∀ a b c d : ℕ, chunkValue [a, b, c, d] =
      (((0 * 64 + a) * 64 + b) * 64 + c) * 64 + d := fun _ _ _ _ => rfl
  have hthree : ∀ a b c d : ℕ, chunkValue ([a, b, c, d].take 3) = chunkValue [a, b, c, 0] :=
    fun _ _ _ _ => rfl
  have htwo : ∀ a b c d : ℕ, chunkValue ([a, b, c, d].take 2) = chunkValue [a, b, 0, 0] :=
    fun _ _ _ _ => rfl
  have hcount : count = 2 ∨ count = 3 ∨ count = 4 := by omega
  rw [groupDigits_eq]
  rcases hcount with rfl | rfl | rfl
  · rw [htwo, hshow]
    omega
  · rw [hthree, hshow]
    omega
  · rw [take_of_length_le (le_refl 4), hshow]
    omega

lemma groupValue_lt (first second third : UInt8) : groupValue first second third < 16777216 := by
  have hfirst := first.toNat_lt
  have hsecond := second.toNat_lt
  have hthird := third.toNat_lt
  unfold groupValue
  omega

lemma groupDigits_length (value : ℕ) : (groupDigits value).length = 4 := by
  rw [groupDigits_eq]
  rfl

/-- The digits of a group stand for its bytes. -/
lemma decodeChunk_group (first second third : UInt8) :
    decodeChunk ((groupDigits (groupValue first second third)).take 4) false =
      some [first, second, third] := by
  obtain ⟨hfirst, hsecond, hthird⟩ := groupValue_bytes first second third
  have hvalue := @chunkValue_take _ 4 (groupValue_lt first second third) (by decide) (by decide)
    (mod_one _)
  unfold decodeChunk
  dsimp only
  rw [hvalue, length_take, groupDigits_length, hfirst, hsecond, hthird]
  rfl

/-- There are no extra bits in the digits of two bytes. -/
lemma decodeChunk_pair (first second : UInt8) (throwOnExtraBits : Bool) :
    decodeChunk ((groupDigits (groupValue first second 0)).take 3) throwOnExtraBits =
      some [first, second] := by
  obtain ⟨hfirst, hsecond, hthird⟩ := groupValue_bytes first second 0
  have hzero : (0 : UInt8).toNat = 0 := rfl
  have hvalue := @chunkValue_take _ 3 (groupValue_lt first second 0) (by decide) (by decide)
    (by unfold groupValue; omega)
  unfold decodeChunk
  dsimp only
  rw [hvalue, length_take, groupDigits_length, hfirst, hsecond, hthird]
  cases throwOnExtraBits with
  | true => rfl
  | false => rfl

lemma decodeChunk_single (first : UInt8) (throwOnExtraBits : Bool) :
    decodeChunk ((groupDigits (groupValue first 0 0)).take 2) throwOnExtraBits = some [first] := by
  obtain ⟨hfirst, hsecond, hthird⟩ := groupValue_bytes first 0 0
  have hzero : (0 : UInt8).toNat = 0 := rfl
  have hvalue := @chunkValue_take _ 2 (groupValue_lt first 0 0) (by decide) (by decide)
    (by unfold groupValue; omega)
  unfold decodeChunk
  dsimp only
  rw [hvalue, length_take, groupDigits_length, hfirst, hsecond, hthird]
  cases throwOnExtraBits with
  | true => rfl
  | false => rfl

/-! ## Decoding of what was encoded -/

/-- The first digits of a group, decoded at the start of a chunk. -/
lemma fromBase64From_take {value count : ℕ} (hcount : count ≤ 3)
    (hroom : count = 3 → acc.length + 2 ≤ maxLength) :
    fromBase64From url handling maxLength
        (((groupDigits value).take count).map (digit64 url) ++ rest) index [] acc read =
      fromBase64From url handling maxLength rest (index + count) ((groupDigits value).take count) acc
        read := by
  have hlength : ((groupDigits value).take count).length = count := by
    rw [length_take, groupDigits_length, min_eq_left (by omega)]
  rw [fromBase64From_digits (fun digit hmem => groupDigits_lt (mem_of_mem_take hmem))
    (by rw [length_nil]; omega) (fun hthree => hroom (by rw [length_nil] at hthree; omega)),
    hlength, nil_append]

/-- The digits of a group. -/
lemma fromBase64From_group (first second third : UInt8) (hroom : acc.length + 3 ≤ maxLength) :
    fromBase64From url handling maxLength
        (base64EncodeGroup (base64Alphabet url) omitPadding [first, second, third] ++ rest) index []
        acc read =
      if acc.length + 3 = maxLength then ⟨index + 4, acc ++ [first, second, third], false⟩
      else fromBase64From url handling maxLength rest (index + 4) [] (acc ++ [first, second, third])
        (index + 4) := by
  have hgroup := decodeChunk_group first second third
  have hsplit : ∀ value, groupDigits value = (groupDigits value).take 3 ++ [value % 64] := by
    intro value
    rw [groupDigits_eq]
    rfl
  rw [take_of_length_le (groupDigits_length _).le] at hgroup
  rw [encodeGroup_three, hsplit, map_append, append_assoc,
    fromBase64From_take (le_refl 3) (by omega)]
  rw [hsplit] at hgroup
  have hthree : ((groupDigits (groupValue first second third)).take 3).length = 3 := by
    rw [length_take, groupDigits_length]
    rfl
  exact fromBase64From_last (mod_lt _ (by decide)) hthree hgroup hroom

/-- The end of text whose padding was omitted. -/
lemma fromBase64From_omitted {last : List UInt8} (hleast : 2 ≤ chunk.length)
    (hlast : ∀ throwOnExtraBits, decodeChunk chunk throwOnExtraBits = some last) :
    fromBase64From url .loose maxLength [] index chunk acc read = ⟨index, acc ++ last, false⟩ := by
  rw [fromBase64From, fromBase64End, if_neg (by omega), if_neg (by omega), hlast]

/-- The padding at the end of text. -/
lemma fromBase64From_padding {last : List UInt8} (hleast : chunk.length = 2 ∨ chunk.length = 3)
    (hlast : ∀ throwOnExtraBits, decodeChunk chunk throwOnExtraBits = some last) :
    fromBase64From url handling maxLength (replicate (4 - chunk.length) (codeUnit '=')) index
      chunk acc read = ⟨index + (4 - chunk.length), acc ++ last, false⟩ := by
  have hspace : isWhitespace (codeUnit '=') = false := by decide
  rcases hleast with htwo | hthree
  · rw [htwo]
    show fromBase64From url handling maxLength [codeUnit '=', codeUnit '='] index chunk acc read = _
    rw [fromBase64From, hspace, if_neg Bool.false_ne_true, if_pos rfl]
    unfold fromBase64Padding
    have hrest : [codeUnit '='].dropWhile isWhitespace = [codeUnit '='] := by decide
    have hsecond : (if 2 = 2 ∧ [codeUnit '='].head? = some (codeUnit '=') then
        [codeUnit '='].tail.dropWhile isWhitespace else [codeUnit '=']) = [] := if_pos ⟨rfl, rfl⟩
    rw [htwo, if_neg (by decide), hrest, if_neg (by simp), hsecond, if_neg (not_not_intro rfl), hlast]
    rfl
  · rw [hthree]
    show fromBase64From url handling maxLength [codeUnit '='] index chunk acc read = _
    rw [fromBase64From, hspace, if_neg Bool.false_ne_true, if_pos rfl]
    unfold fromBase64Padding
    have hrest : ([] : List CodeUnit).dropWhile isWhitespace = [] := rfl
    rw [hthree, if_neg (by decide), hrest, if_neg (by simp), if_neg (by simp), hlast]
    rfl

/-- The end of the text after the digits of one byte or two. -/
lemma fromBase64From_ended {last : List UInt8} {count : ℕ}
    (homit : omitPadding = true → handling = .loose) (hchunk : chunk.length = count)
    (hcount : count = 2 ∨ count = 3)
    (hlast : ∀ throwOnExtraBits, decodeChunk chunk throwOnExtraBits = some last) :
    fromBase64From url handling maxLength
        (if omitPadding then [] else replicate (4 - count) (codeUnit '=')) (index + count) chunk
        acc read =
      ⟨index + (count + (if omitPadding then [] else replicate (4 - count)
        (codeUnit '=')).length), acc ++ last, false⟩ := by
  subst hchunk
  cases omitPadding with
  | true =>
    rw [homit rfl]
    exact fromBase64From_omitted (by omega) hlast
  | false =>
    rw [if_neg Bool.false_ne_true, fromBase64From_padding hcount hlast, length_replicate,
      add_assoc]

/-- Text that was encoded, decoded from the start of a chunk on. -/
lemma fromBase64From_encoded (homit : omitPadding = true → handling = .loose)
    (hroom : acc.length + bytes.length ≤ maxLength) (hmax : acc.length < maxLength) :
    fromBase64From url handling maxLength
        (base64EncodeGroups (base64Alphabet url) omitPadding bytes) index [] acc read =
      ⟨index + (base64EncodeGroups (base64Alphabet url) omitPadding bytes).length, acc ++ bytes,
        false⟩ := by
  -- along the groups, of which only the last one is padded
  fun_induction base64EncodeGroups (base64Alphabet url) omitPadding bytes
    generalizing index acc read with
  | case1 first second third rest ih =>
    have hfour : (base64EncodeGroup (base64Alphabet url) omitPadding [first, second, third]).length =
        4 := by
      rw [encodeGroup_three, length_map, groupDigits_length]
    have hacc : (acc ++ [first, second, third]).length = acc.length + 3 := length_append
    have hlength : (first :: second :: third :: rest).length = rest.length + 3 := rfl
    rw [hlength] at hroom
    rw [fromBase64From_group first second third (by omega), length_append, hfour]
    by_cases hend : acc.length + 3 = maxLength
    · have hnil : rest = [] := eq_nil_of_length_eq_zero (by omega)
      rw [if_pos hend, hnil]
      rfl
    · rw [if_neg hend, ih (by omega) (by omega), append_assoc, add_assoc]
      rfl
  | case2 =>
    rw [append_nil]
    rfl
  | case3 group hshort hgroup =>
    match group, hshort, hgroup with
    | [first], _, _ =>
      have hlength : ((groupDigits (groupValue first 0 0)).take 2).length = 2 := by
        rw [length_take, groupDigits_length]
        rfl
      rw [encodeGroup_one, fromBase64From_take (by decide) (by omega), length_append,
        length_map, hlength]
      exact fromBase64From_ended homit hlength (.inl rfl) (decodeChunk_single first)
    | [first, second], _, _ =>
      have hlength : ((groupDigits (groupValue first second 0)).take 3).length = 3 := by
        rw [length_take, groupDigits_length]
        rfl
      rw [encodeGroup_two, fromBase64From_take (by decide) (fun _ => hroom), length_append,
        length_map, hlength]
      exact fromBase64From_ended homit hlength (.inr rfl) (decodeChunk_pair first second)
    | [], _, hgroup => exact absurd rfl hgroup
    | _ :: _ :: _ :: _, hshort, _ => exact (hshort _ _ _ _ rfl).elim

theorem fromBase64_encoded (homit : omitPadding = true → handling = .loose)
    (hroom : bytes.length ≤ maxLength) :
    fromBase64 (base64EncodeGroups (base64Alphabet url) omitPadding bytes) url handling maxLength =
      ⟨(base64EncodeGroups (base64Alphabet url) omitPadding bytes).length, bytes, false⟩ := by
  unfold fromBase64
  by_cases hzero : maxLength = 0
  · have hnil : bytes = [] := eq_nil_of_length_eq_zero (by omega)
    rw [if_pos hzero, hnil]
    rfl
  · rw [if_neg hzero, fromBase64From_encoded homit (by rwa [length_nil, Nat.zero_add])
      (Nat.pos_of_ne_zero hzero), Nat.zero_add, nil_append]

/-- The size of the text. -/
lemma base64EncodeGroups_length (url omitPadding : Bool) (bytes : List UInt8) :
    (base64EncodeGroups (base64Alphabet url) omitPadding bytes).length =
      encodedLength (.base64 url omitPadding) bytes.length := by
  fun_induction base64EncodeGroups (base64Alphabet url) omitPadding bytes with
  | case1 first second third rest ih =>
    simp only [encodedLength, length_append, encodeGroup_three, length_map, groupDigits_length,
      length_cons] at ih ⊢
    rw [ih, show (rest.length + 1 + 1 + 1) / 3 = rest.length / 3 + 1 by omega,
      show (rest.length + 1 + 1 + 1) % 3 = rest.length % 3 by omega]
    omega
  | case2 => rfl
  | case3 group hshort hgroup =>
    rcases group with _ | ⟨first, _ | ⟨second, _ | ⟨third, rest⟩⟩⟩
    · exact absurd rfl hgroup
    · cases omitPadding <;> simp [encodeGroup_one, groupDigits_length, encodedLength]
    · cases omitPadding <;> simp [encodeGroup_two, groupDigits_length, encodedLength]
    · exact (hshort _ _ _ _ rfl).elim

/-! ## Hexadecimal text -/

lemma hexEncode_length (bytes : List UInt8) :
    (hexEncode bytes).length = encodedLength .hex bytes.length := by
  unfold hexEncode
  rw [length_flatMap]
  show (bytes.map fun _ => 2).sum = bytes.length * 2
  rw [map_const', sum_replicate_nat]

lemma hexDigit_facts : ∀ digit : Fin 16,
    hexDigitOf (digitUnit hexDigits digit.val) = some digit.val := by
  decide +kernel

lemma fromHexFrom_encoded (hroom : acc.length + bytes.length ≤ maxLength) :
    fromHexFrom maxLength (hexEncode bytes) acc read =
      ⟨read + (hexEncode bytes).length, acc ++ bytes, false⟩ := by
  induction bytes generalizing acc read with
  | nil =>
    rw [append_nil]
    rfl
  | cons byte rest ih =>
    have hlt := byte.toNat_lt
    have hhigh : byte.toNat >>> 4 = byte.toNat / 16 := shiftRight_eq_div_pow _ 4
    have hlow : byte.toNat &&& 15 = byte.toNat % 16 := and_two_pow_sub_one_eq_mod _ 4
    have hencode : hexEncode (byte :: rest) = digitUnit hexDigits (byte.toNat >>> 4) ::
        digitUnit hexDigits (byte.toNat &&& 15) :: hexEncode rest := rfl
    have hbyte : UInt8.ofNat (byte.toNat / 16 * 16 + byte.toNat % 16) = byte := by
      apply byte_eq
      omega
    have hhighValue := hexDigit_facts ⟨byte.toNat / 16, by omega⟩
    have hlowValue := hexDigit_facts ⟨byte.toNat % 16, by omega⟩
    rw [length_cons] at hroom
    rw [hencode, hhigh, hlow, fromHexFrom, if_pos (by omega), hhighValue, hlowValue]
    dsimp only
    have hacc : (acc ++ [byte]).length = acc.length + 1 := length_append
    rw [hbyte, ih (by omega), append_assoc, length_cons, length_cons,
      add_assoc, add_comm 2]
    rfl

theorem fromHex_encoded (hroom : bytes.length ≤ maxLength) :
    fromHex (hexEncode bytes) maxLength = ⟨(hexEncode bytes).length, bytes, false⟩ := by
  have heven : (hexEncode bytes).length % 2 = 0 := by
    rw [hexEncode_length]
    exact mul_mod_left _ 2
  unfold fromHex
  rw [if_neg (by omega), fromHexFrom_encoded (by rwa [length_nil, zero_add]), zero_add,
    nil_append]

end

/-! ## Strings and views

`base64_decode_string` decodes as FromBase64 and FromHex do, within the buffer it asks for, and
what `base64_to_string` writes is decoded to the bytes it was given (`base64_conforms`).
-/

open Oseo.UriCoding (CodeUnit codeUnit)

variable {units text : List CodeUnit} {format : DecodeFormat} {encoding : EncodeFormat}
  {maxLength : ℕ} {bytes buffer elements : List UInt8} {work : ℕ → UInt8}

/-! ## Conversions of a format -/

/-- The operation of ECMA-262 for a format. -/
def conversion (units : List CodeUnit) (format : DecodeFormat) (maxLength : ℕ) : Conversion :=
  match format with
  | .hex => fromHex units maxLength
  | .base64 url handling => fromBase64 units url handling maxLength

/-- The bytes of all complete chunks at the front of a string. FromHex takes pairs of digits, and
none from a string of odd length. -/
def completeChunks (units : List CodeUnit) (format : DecodeFormat) : List UInt8 :=
  match format with
  | .hex => if units.length % 2 = 0 then completePairs units else []
  | .base64 url _ => completeBytes url units []

/-- The maximum of a conversion that is given none. -/
def unlimited : ℕ := 2 ^ 53 - 1

/-- What a decoding leaves in a buffer, when it does as the conversion does. -/
structure DecodesAs (units : List CodeUnit) (format : DecodeFormat) (maxLength : ℕ)
    (decoded : Base64DecodeResult) (buffer : List UInt8) : Prop where
  read : decoded.read = (conversion units format maxLength).read
  written : decoded.written = (conversion units format maxLength).bytes.length
  error : decoded.error = (conversion units format maxLength).error
  bytes : buffer.take decoded.written = (conversion units format maxLength).bytes
  /-- Nothing is written behind the maximum, or behind the buffer. -/
  maximum : decoded.written ≤ maxLength
  capacity : decoded.written ≤ decodeCapacity format.isHex units maxLength
  /-- The units that are read decode to the bytes that are written. -/
  reads : (conversion (units.take decoded.read) format maxLength).bytes =
      buffer.take decoded.written ∧
    (conversion (units.take decoded.read) format maxLength).error = false
  /-- On an error the bytes of all complete chunks are written. -/
  complete : decoded.error = true → buffer.take decoded.written = completeChunks units format

lemma conversion_take (units : List CodeUnit) (format : DecodeFormat) (maxLength : ℕ) :
    (conversion (units.take (conversion units format maxLength).read) format maxLength).bytes =
        (conversion units format maxLength).bytes ∧
      (conversion (units.take (conversion units format maxLength).read) format maxLength).error =
        false := by
  cases format with
  | hex => exact fromHex_take units maxLength
  | base64 url handling => exact fromBase64_take units url handling maxLength

lemma conversion_error (herror : (conversion units format maxLength).error = true) :
    (conversion units format maxLength).bytes = completeChunks units format := by
  cases format with
  | hex => exact fromHex_error herror
  | base64 url handling => exact fromBase64_error herror

/-- A maximum the string cannot reach does not matter. -/
lemma conversion_unbounded {maxLength' : ℕ} (hmax : units.length + 3 ≤ maxLength)
    (hmax' : units.length + 3 ≤ maxLength') :
    conversion units format maxLength = conversion units format maxLength' := by
  cases format with
  | hex =>
    apply fromHex_unbounded
    · omega
    · omega
  | base64 url handling =>
    apply fromBase64_unbounded
    · omega
    · omega

/-! ## Decoding -/

/-- Decoding into a buffer of a size. -/
def decodeInto (units : List CodeUnit) (format : DecodeFormat) (maxLength : ℕ)
    (buffer : List UInt8) : Option (Base64DecodeResult × List UInt8) :=
  match format with
  | .hex => base64HexDecode units maxLength buffer
  | .base64 url handling => base64Decode units url handling maxLength buffer

/-- A buffer of the capacity takes every write. -/
lemma decodeInto_meets (hcapacity : decodeCapacity format.isHex units maxLength ≤ buffer.length) :
    ∃ result, decodeInto units format maxLength buffer = some result ∧
      Meets maxLength buffer result (conversion units format maxLength) := by
  unfold decodeCapacity at hcapacity
  cases format with
  | hex =>
    apply base64HexDecode_meets
    have hhex : DecodeFormat.hex.isHex = true := rfl
    dsimp only at hcapacity
    rw [if_pos hhex] at hcapacity
    split at hcapacity
    · omega
    · omega
  | base64 url handling =>
    apply base64Decode_meets
    have hhex : ¬ (DecodeFormat.base64 url handling).isHex = true := Bool.false_ne_true
    dsimp only at hcapacity
    rw [if_neg hhex] at hcapacity
    split at hcapacity
    · omega
    · omega

lemma StartsWith.length_le (h : StartsWith buffer bytes) : bytes.length ≤ buffer.length := by
  have hlength := congrArg List.length h
  rw [List.length_take] at hlength
  omega

/-- A conversion has no more bytes than the capacity, as they fit into a buffer of that size. -/
lemma conversion_capacity (units : List CodeUnit) (format : DecodeFormat) (maxLength : ℕ) :
    (conversion units format maxLength).bytes.length ≤
      decodeCapacity format.isHex units maxLength := by
  have hbuffer : (List.replicate (decodeCapacity format.isHex units maxLength) (0 : UInt8)).length =
      decodeCapacity format.isHex units maxLength := List.length_replicate
  obtain ⟨result, -, hmeets⟩ := decodeInto_meets (Nat.le_of_eq hbuffer.symm)
  have hle := hmeets.bytes.length_le
  rw [hmeets.size, hbuffer] at hle
  exact hle

lemma base64DecodeString_decodes (units : List CodeUnit) (format : DecodeFormat) (maxLength : ℕ)
    (work : ℕ → UInt8) : ∃ decoded buffer,
      base64DecodeString units format maxLength work = some (decoded, buffer) ∧
        buffer.length = max 1 (decodeCapacity format.isHex units maxLength) ∧
        DecodesAs units format maxLength decoded buffer := by
  generalize hcapacity : decodeCapacity format.isHex units maxLength = capacity
  have hsize : ((List.range (if capacity = 0 then 1 else capacity)).map work).length =
      max 1 capacity := by
    rw [List.length_map, List.length_range]
    split
    · omega
    · omega
  have hfits : decodeCapacity format.isHex units maxLength ≤
      ((List.range (if capacity = 0 then 1 else capacity)).map work).length := by omega
  obtain ⟨⟨decoded, buffer⟩, hdecode, hmeets⟩ := decodeInto_meets hfits
  have hbytes : buffer.take decoded.written = (conversion units format maxLength).bytes := by
    rw [hmeets.written]
    exact hmeets.bytes
  have htake := conversion_take units format maxLength
  refine ⟨decoded, buffer, ?_, ?_, ?_⟩
  · rw [← hdecode, ← hcapacity]
    cases format with
    | hex => rfl
    | base64 url handling => rfl
  · rw [← hsize]
    exact hmeets.size
  · refine ⟨hmeets.read, hmeets.written, hmeets.error, hbytes, ?_, ?_, ?_, ?_⟩
    · rw [hmeets.written]
      exact hmeets.bound
    · rw [hmeets.written]
      exact conversion_capacity units format maxLength
    · rw [hmeets.read, hbytes]
      exact htake
    · intro herror
      rw [hbytes]
      apply conversion_error
      rw [← hmeets.error]
      exact herror

/-! ## The functions of a program -/

/-- What a decoding reports. -/
def Conversion.outcome {β : Type} (conversion : Conversion) (format : DecodeFormat) (value : β) :
    Except ConversionError β :=
  if conversion.error then .error (base64SyntaxError format) else .ok value

/-- `setFromBase64` and `setFromHex` write the bytes to the front of the view. -/
lemma base64SetFromString_eq (elements : List UInt8) (units : List CodeUnit)
    (format : DecodeFormat) (work : ℕ → UInt8) :
    base64SetFromString elements units format work =
      let converted := conversion units format elements.length
      some (converted.bytes ++ elements.drop converted.bytes.length,
        converted.outcome format (converted.read, converted.bytes.length)) := by
  obtain ⟨decoded, buffer, hdecode, -, h⟩ := base64DecodeString_decodes units format elements.length
    work
  have hfits : 0 + (conversion units format elements.length).bytes.length ≤ elements.length := by
    have hmaximum := h.maximum
    rw [h.written] at hmaximum
    omega
  unfold base64SetFromString Conversion.outcome
  rw [hdecode]
  show (copyBytes elements 0 (buffer.take decoded.written)).map _ = _
  rw [h.bytes]
  unfold copyBytes
  rw [if_pos hfits, Option.map_some, h.error, h.read, h.written, Nat.zero_add]
  rfl

/-- `fromBase64` and `fromHex` return the bytes. -/
lemma base64FromString_eq (units : List CodeUnit) (format : DecodeFormat) (work : ℕ → UInt8) :
    base64FromString units format work =
      let converted := conversion units format sizeMax
      some (converted.outcome format converted.bytes) := by
  obtain ⟨decoded, buffer, hdecode, -, h⟩ := base64DecodeString_decodes units format sizeMax work
  unfold base64FromString Conversion.outcome
  rw [hdecode]
  dsimp only [Option.map_some]
  rw [h.bytes, h.error]

/-! ## Round trips -/

/-- The options of a decoding that match those of an encoding. -/
def Matches : EncodeFormat → DecodeFormat → Prop
  | .hex, .hex => True
  | .base64 url omitPadding, .base64 url' handling =>
    url' = url ∧ (omitPadding = true → handling = .loose)
  | _, _ => False

/-- Text is decoded to the bytes it was written for, by any maximum that they fit into. -/
lemma conversion_encoded (hencode : base64ToString bytes encoding = .ok text)
    (hmatches : Matches encoding format) (hmax : bytes.length ≤ maxLength) :
    conversion text format maxLength = ⟨text.length, bytes, false⟩ := by
  unfold base64ToString at hencode
  split at hencode
  · cases hencode
  split at hencode
  · cases hencode
  match encoding, format, hmatches with
  | .hex, .hex, _ =>
    cases hencode
    exact fromHex_encoded hmax
  | .base64 url omitPadding, .base64 _ handling, ⟨rfl, homit⟩ =>
    cases hencode
    exact fromBase64_encoded homit hmax

/-- No byte sequence that is written has more bytes than a size can count. -/
lemma encoded_size (hencode : base64ToString bytes encoding = .ok text) :
    bytes.length ≤ sizeMax := by
  unfold base64ToString at hencode
  split at hencode
  · cases hencode
  · next hfits =>
    rw [Bool.not_eq_true, Bool.not_eq_false'] at hfits
    unfold encodedFits at hfits
    have hsize : sizeMax = 18446744073709551615 := by decide
    cases encoding with
    | hex =>
      rw [decide_eq_true_iff] at hfits
      omega
    | base64 url omitPadding =>
      rw [decide_eq_true_iff] at hfits
      omega

/-- The text has the size the string was allocated with. -/
theorem encoded_length (hencode : base64ToString bytes encoding = .ok text) :
    text.length = encodedLength encoding bytes.length := by
  unfold base64ToString at hencode
  split at hencode
  · cases hencode
  split at hencode
  · cases hencode
  cases encoding with
  | hex =>
    cases hencode
    exact hexEncode_length bytes
  | base64 url omitPadding =>
    cases hencode
    exact base64EncodeGroups_length url omitPadding bytes

/-- One byte, in the URL alphabet without padding. -/
theorem encoded_length_byte : 2 = encodedLength (.base64 true true) 1 :=
  @encoded_length [0x5f, 0x77] _ [255] rfl

end Oseo.BinaryText
