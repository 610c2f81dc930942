import Oseo.UriCoding.UriDecoding

/-!
# Encoding and the round trips

Encode fails exactly on an unpaired surrogate (`uriEncode_fails_iff`), what it returns stands for
the string (`denotes_of_uriEncode`), and `unescape` undoes `escape` (`unescapeString_escapeString`).

A string stands for something exactly when every `%` in it is within a run of escape sequences that
spells a character (`exists_denotes_iff`): two such runs of one string never overlap, because no
octet but the first of a character can be the first of another.
-/

namespace Oseo.UriCoding

open List

section

open UInt16 (le_iff_toNat_le ofNat_toNat)
open Bool (and_eq_true eq_false_iff not_eq_true or_eq_false_iff or_eq_true)
open Nat

variable {units rest run text : List CodeUnit} {octets : List UInt8} {octet : UInt8}
  {index : ℕ}

/-! ## Surrogates -/

/-- The unit at an index is a surrogate that is no half of a pair. -/
def Unpaired (units : List CodeUnit) (index : ℕ) : Prop :=
  ((units[index]?).any leads = true ∧ (units[index + 1]?).any trails = false) ∨
    ((units[index]?).any trails = true ∧ ¬(0 < index ∧ (units[index - 1]?).any leads = true))

lemma leads_iff (unit : CodeUnit) :
    leads unit = true ↔ 0xd800 ≤ unit.toNat ∧ unit.toNat ≤ 0xdbff := by
  unfold leads
  rw [and_eq_true, decide_eq_true_eq, decide_eq_true_eq, le_iff_toNat_le,
    le_iff_toNat_le]
  rfl

lemma trails_iff (unit : CodeUnit) :
    trails unit = true ↔ 0xdc00 ≤ unit.toNat ∧ unit.toNat ≤ 0xdfff := by
  unfold trails
  rw [and_eq_true, decide_eq_true_eq, decide_eq_true_eq, le_iff_toNat_le,
    le_iff_toNat_le]
  rfl

lemma trails_eq_false {unit : CodeUnit} (h : leads unit = true) : trails unit = false := by
  rw [eq_false_iff]
  intro htrails
  rw [leads_iff] at h
  rw [trails_iff] at htrails
  omega

lemma leads_eq_false {unit : CodeUnit} (h : trails unit = true) : leads unit = false := by
  rw [eq_false_iff]
  intro hleads
  rw [trails_eq_false hleads] at h
  cases h

/-- Past a unit that leads nothing, the same surrogates are unpaired. -/
lemma unpaired_succ {unit : CodeUnit} (h : leads unit = false) :
    Unpaired (unit :: rest) (index + 1) ↔ Unpaired rest index := by
  unfold Unpaired
  cases index with
  | zero => simp [h]
  | succ index => simp

lemma unpaired_zero {unit : CodeUnit} : Unpaired (unit :: rest) 0 ↔
    (leads unit = true ∧ (rest.head?).any trails = false) ∨ trails unit = true := by
  unfold Unpaired
  simp [head?_eq_getElem?]

lemma exists_unpaired_cons {unit : CodeUnit} (h : leads unit = false) :
    (∃ index, Unpaired (unit :: rest) index) ↔
      trails unit = true ∨ ∃ index, Unpaired rest index := by
  constructor
  · rintro ⟨index, hindex⟩
    cases index with
    | zero =>
      rw [unpaired_zero, h] at hindex
      exact .inl (hindex.resolve_left (fun hcontra => Bool.false_ne_true hcontra.1))
    | succ index => exact .inr ⟨index, (unpaired_succ h).mp hindex⟩
  · rintro (htrails | ⟨index, hindex⟩)
    · exact ⟨0, unpaired_zero.mpr (.inr htrails)⟩
    · exact ⟨index + 1, (unpaired_succ h).mpr hindex⟩

lemma exists_unpaired_pair {unit next : CodeUnit} (hunit : leads unit = true)
    (hnext : trails next = true) :
    (∃ index, Unpaired (unit :: next :: rest) index) ↔ ∃ index, Unpaired rest index := by
  have hlead := leads_eq_false hnext
  have htrail := trails_eq_false hunit
  constructor
  · rintro ⟨index, hindex⟩
    match index with
    | 0 => simp [unpaired_zero, hnext, htrail] at hindex
    | 1 => simp [Unpaired, hunit, hlead] at hindex
    | index + 2 =>
      refine ⟨index, (unpaired_succ hlead).mp ?_⟩
      unfold Unpaired at hindex ⊢
      simpa using hindex
  · rintro ⟨index, hindex⟩
    refine ⟨index + 2, ?_⟩
    have hsucc := (unpaired_succ hlead).mpr hindex
    unfold Unpaired at hsucc ⊢
    simpa using hsucc

/-! ## What Encode writes -/

instance (unit : CodeUnit) (digit : ℕ) : Decidable (HexDigit unit digit) :=
  inferInstanceAs (Decidable (_ ∧ _))

lemma hexDigit_hexUnit : ∀ digit < 16, HexDigit (hexUnit digit) digit := by decide

lemma escapes_escapeOctet (octet : UInt8) : Escapes (escapeOctet octet) [octet] := by
  have hlt := octet.toNat_lt
  have hhigh : octet.toNat >>> 4 = octet.toNat / 16 := shiftRight_eq_div_pow _ 4
  have hlow : octet.toNat &&& 0x0f = octet.toNat % 16 := and_two_pow_sub_one_eq_mod _ 4
  unfold escapeOctet
  rw [hhigh, hlow]
  exact .cons (hexDigit_hexUnit _ (by omega)) (hexDigit_hexUnit _ (by omega)) (by omega) .nil

lemma escapes_flatMap (octets : List UInt8) : Escapes (octets.flatMap escapeOctet) octets := by
  induction octets with
  | nil => exact .nil
  | cons octet octets ih =>
    rw [flatMap_cons]
    exact (escapes_escapeOctet octet).append ih

/-- What Encode writes for a character is the run of escape sequences of its octets. -/
lemma escapes_escapeCodePoint (character : Char) :
    Escapes (escapeCodePoint character.toNat) (String.utf8EncodeChar character) := by
  unfold escapeCodePoint
  rw [uriUtf8Octets_eq]
  exact escapes_flatMap _

lemma percent_not_kept (escapeReserved : Bool) :
    (uriAlwaysUnescaped percent || (!escapeReserved && uriReserved percent)) = false := by
  cases escapeReserved <;> decide

/-- A unit that is no surrogate is a character. -/
lemma exists_char_unit {unit : CodeUnit} (h : leads unit = false) (h' : trails unit = false) :
    ∃ character : Char, character.toNat = unit.toNat ∧ utf16 character = [unit] := by
  have hlt := unit.toNat_lt
  rw [eq_false_iff, Ne, leads_iff] at h
  rw [eq_false_iff, Ne, trails_iff] at h'
  obtain ⟨character, hcharacter⟩ := @exists_char unit.toNat (by omega) (by omega)
  refine ⟨character, hcharacter, ?_⟩
  rw [utf16, if_pos (by omega), hcharacter]
  exact congrArg (fun unit => [unit]) ofNat_toNat

/-- A surrogate pair is a character. -/
lemma exists_char_pair {unit next : CodeUnit} (h : leads unit = true) (h' : trails next = true) :
    ∃ character : Char, character.toNat = pairCodePoint unit next ∧ 0x10000 ≤ character.toNat ∧
      utf16 character = [unit, next] := by
  rw [leads_iff] at h
  rw [trails_iff] at h'
  have hpair : pairCodePoint unit next =
      0x10000 + (unit.toNat - 0xd800) * 1024 + (next.toNat - 0xdc00) := by
    unfold pairCodePoint
    rw [shiftLeft_eq]
  obtain ⟨character, hcharacter⟩ := @exists_char (pairCodePoint unit next) (by omega) (by omega)
  refine ⟨character, hcharacter, by omega, ?_⟩
  have hfirst : 0xd800 + (character.toNat - 0x10000) / 0x400 = unit.toNat := by omega
  have hsecond : 0xdc00 + (character.toNat - 0x10000) % 0x400 = next.toNat := by omega
  rw [utf16, if_neg (by omega), hfirst, hsecond, ofNat_toNat, ofNat_toNat]

/-- A reserved unit that is escaped is not preserved. -/
lemma preservedBy_escaped {escapeReserved : Bool} {unit : CodeUnit} {character : Char}
    (hcharacter : character.toNat = unit.toNat)
    (h : (uriAlwaysUnescaped unit || (!escapeReserved && uriReserved unit)) = false) :
    preservedBy (!escapeReserved) character = false := by
  by_cases hascii : character.toNat < 0x80
  · have hunit : codeUnit character = unit := by
      rw [codeUnit, hcharacter, ofNat_toNat]
    unfold preservedBy
    rw [← uriReserved_ascii hascii, hunit]
    exact (or_eq_false_iff.mp h).2
  · exact preservedBy_eq_false (by omega)

lemma denotes_escapeCodePoint {preserveReserved : Bool} {character : Char} {tail : List CodeUnit}
    (hcharacter : preservedBy preserveReserved character = false)
    (h : Denotes (preservedBy preserveReserved) text tail) :
    Denotes (preservedBy preserveReserved) (escapeCodePoint character.toNat ++ text)
      (utf16 character ++ tail) := by
  have hrun := Denotes.run (escapes_escapeCodePoint character) h
  rwa [hcharacter] at hrun

/-- What Encode returns stands for the string it was given. -/
theorem denotes_of_uriEncode {escapeReserved : Bool}
    (h : uriEncode escapeReserved units = .ok text) :
    Denotes (preservedBy (!escapeReserved)) text units := by
  fun_induction uriEncode escapeReserved units generalizing text with
  | case1 =>
    cases h
    exact .nil
  | case2 unit rest hkept ih =>
    obtain ⟨tail, htail, rfl⟩ := map_eq_ok.mp h
    apply Denotes.unit _ (ih htail)
    rintro rfl
    rw [percent_not_kept] at hkept
    cases hkept
  | case3 => cases h
  | case4 unit hkept hsurrogate =>
    rw [not_eq_true] at hkept hsurrogate
    rw [or_eq_false_iff] at hsurrogate
    obtain ⟨character, hcharacter, hutf16⟩ := exists_char_unit hsurrogate.1 hsurrogate.2
    cases h
    have hrun := denotes_escapeCodePoint (preservedBy_escaped hcharacter hkept) .nil
    rwa [hcharacter, hutf16, append_nil] at hrun
  | case5 unit hkept next units hpair ih =>
    rw [and_eq_true] at hpair
    obtain ⟨character, hcharacter, hle, hutf16⟩ := exists_char_pair hpair.1 hpair.2
    obtain ⟨tail, htail, rfl⟩ := map_eq_ok.mp h
    have hrun := denotes_escapeCodePoint
      (@preservedBy_eq_false (!escapeReserved) character (by omega)) (ih htail)
    rwa [hcharacter, hutf16] at hrun
  | case6 => cases h
  | case7 unit hkept next units hpair hsurrogate ih =>
    rw [not_eq_true] at hkept hsurrogate
    rw [or_eq_false_iff] at hsurrogate
    obtain ⟨character, hcharacter, hutf16⟩ := exists_char_unit hsurrogate.1 hsurrogate.2
    obtain ⟨tail, htail, rfl⟩ := map_eq_ok.mp h
    have hrun := denotes_escapeCodePoint (preservedBy_escaped hcharacter hkept) (ih htail)
    rwa [hcharacter, hutf16] at hrun

/-! ## When Encode fails -/

lemma uriMember_le {set : List Char} {unit : CodeUnit} (h : uriMember set unit = true) :
    unit.toNat ≤ 0x7f := by
  unfold uriMember at h
  split at h
  · cases h
  · rename_i hascii
    simp only [or_eq_true, decide_eq_true_eq, not_or, UInt16.lt_iff_toNat_lt] at hascii
    exact Nat.le_of_not_lt hascii.2

lemma wordOrMark_le {marks : List Char} {unit : CodeUnit} (h : wordOrMark marks unit = true) :
    unit.toNat ≤ 0x7f := by
  have hupper : between 'A' 'Z' unit = true ↔ 65 ≤ unit.toNat ∧ unit.toNat ≤ 90 := between_iff
  have hlower : between 'a' 'z' unit = true ↔ 97 ≤ unit.toNat ∧ unit.toNat ≤ 122 := between_iff
  have hdigit : between '0' '9' unit = true ↔ 48 ≤ unit.toNat ∧ unit.toNat ≤ 57 := between_iff
  unfold wordOrMark at h
  simp only [or_eq_true, hupper, hlower, hdigit, beq_iff_eq] at h
  rcases h with (h | rfl) | h
  · omega
  · decide
  · exact uriMember_le h

lemma kept_not_surrogate {escapeReserved : Bool} {unit : CodeUnit}
    (h : (uriAlwaysUnescaped unit || (!escapeReserved && uriReserved unit)) = true) :
    leads unit = false ∧ trails unit = false := by
  have hle : unit.toNat ≤ 0x7f := by
    rw [or_eq_true] at h
    rcases h with h | h
    · exact wordOrMark_le h
    · exact uriMember_le (and_eq_true _ _ ▸ h).2
  rw [eq_false_iff, eq_false_iff, Ne, Ne, leads_iff, trails_iff]
  omega

/-- A surrogate at the front whose next unit does not complete a pair. -/
lemma unpaired_front {unit : CodeUnit} (h : (leads unit || trails unit) = true)
    (hpair : leads unit = true → (rest.head?).any trails = false) :
    ∃ index, Unpaired (unit :: rest) index := by
  refine ⟨0, unpaired_zero.mpr ?_⟩
  rw [or_eq_true] at h
  exact h.imp_left fun hleads => ⟨hleads, hpair hleads⟩

lemma map_eq_error {result : Except Message (List CodeUnit)} {message : Message}
    {wrap : List CodeUnit → List CodeUnit} :
    result.map wrap = .error message ↔ result = .error message := by
  cases result with
  | error message => simp [Except.map]
  | ok tail => simp [Except.map]

/-- Encode fails exactly on a string with an unpaired surrogate. -/
theorem uriEncode_fails_iff {escapeReserved : Bool} :
    uriEncode escapeReserved units = .error unpairedSurrogate ↔ ∃ index, Unpaired units index := by
  fun_induction uriEncode escapeReserved units with
  | case1 =>
    apply iff_of_false (by simp)
    rintro ⟨index, hindex⟩
    simp [Unpaired] at hindex
  | case2 unit rest hkept ih =>
    obtain ⟨hlead, htrail⟩ := kept_not_surrogate hkept
    rw [map_eq_error, ih, exists_unpaired_cons hlead, htrail]
    simp
  | case3 unit hkept hsurrogate =>
    exact iff_of_true rfl (unpaired_front hsurrogate fun _ => rfl)
  | case4 unit hkept hsurrogate =>
    rw [not_eq_true, or_eq_false_iff] at hsurrogate
    rw [exists_unpaired_cons hsurrogate.1, hsurrogate.2]
    apply iff_of_false (by simp)
    rintro (hcontra | ⟨index, hindex⟩)
    · cases hcontra
    · simp [Unpaired] at hindex
  | case5 unit hkept next units hpair ih =>
    rw [and_eq_true] at hpair
    rw [map_eq_error, ih, exists_unpaired_pair hpair.1 hpair.2]
  | case6 unit hkept next units hpair hsurrogate =>
    rw [and_eq_true, not_and, not_eq_true] at hpair
    exact iff_of_true rfl (unpaired_front hsurrogate hpair)
  | case7 unit hkept next units hpair hsurrogate ih =>
    rw [not_eq_true, or_eq_false_iff] at hsurrogate
    rw [map_eq_error, ih, exists_unpaired_cons hsurrogate.1, hsurrogate.2]
    simp

/-- Encode has one error. -/
lemma uriEncode_error {escapeReserved : Bool} {message : Message}
    (h : uriEncode escapeReserved units = .error message) : message = unpairedSurrogate := by
  fun_induction uriEncode escapeReserved units with
  | case1 => cases h
  | case2 unit rest hkept ih => exact ih (map_eq_error.mp h)
  | case3 => exact (Except.error.inj h).symm
  | case4 => cases h
  | case5 unit hkept next units hpair ih => exact ih (map_eq_error.mp h)
  | case6 => exact (Except.error.inj h).symm
  | case7 unit hkept next units hpair hsurrogate ih => exact ih (map_eq_error.mp h)

/-- Encode throws exactly on an unpaired surrogate, and otherwise Decode gives the string back. -/
lemma uriDecode_uriEncode (escapeReserved : Bool) (units : List CodeUnit) :
    ((∃ message, uriEncode escapeReserved units = .error message) ↔
      ∃ index, Unpaired units index) ∧
    ((∀ index, ¬Unpaired units index) → ∃ text, uriEncode escapeReserved units = .ok text ∧
      uriDecode (!escapeReserved) text = .ok units) := by
  have hfails : (∃ message, uriEncode escapeReserved units = .error message) ↔
      ∃ index, Unpaired units index := by
    rw [← uriEncode_fails_iff]
    constructor
    · rintro ⟨message, h⟩
      rwa [uriEncode_error h] at h
    · exact fun h => ⟨_, h⟩
  refine ⟨hfails, fun hpaired => ?_⟩
  cases hencode : uriEncode escapeReserved units with
  | error message =>
    obtain ⟨index, hindex⟩ := hfails.mp ⟨message, hencode⟩
    exact absurd hindex (hpaired index)
  | ok text => exact ⟨text, rfl, uriDecode_eq_ok.mpr (denotes_of_uriEncode hencode)⟩

/-! ## The Annex B pair -/

lemma uriHexDigit_hexUnit : ∀ digit < 16, uriHexDigit (hexUnit digit) = digit := by decide

lemma hexUnit_ne : ∀ digit < 16, (hexUnit digit == codeUnit 'u') = false := by decide

/-- The value digits spell, after the ones accumulated so far. -/
lemma unescapeHexValue_map (digits : List ℕ) (accumulated : ℕ) (h : ∀ digit ∈ digits, digit < 16) :
    unescapeHexValue accumulated (digits.map hexUnit) =
      some (digits.foldl (fun value digit => value * 16 + digit) accumulated) := by
  induction digits generalizing accumulated with
  | nil => rfl
  | cons digit digits ih =>
    have hdigit := uriHexDigit_hexUnit digit (h digit mem_cons_self)
    have hlt := h digit mem_cons_self
    rw [map_cons, unescapeHexValue, hdigit, if_neg (by omega), foldl_cons]
    exact ih _ fun other hother => h other (mem_cons_of_mem _ hother)

lemma unescapeForm_map {digits : List ℕ} (h : ∀ digit ∈ digits, digit < 16) :
    unescapeForm digits.length (digits.map hexUnit ++ rest) =
      some (digits.foldl (fun value digit => value * 16 + digit) 0) := by
  rw [unescapeForm, if_pos (by simp), take_left' (length_map _),
    unescapeHexValue_map digits 0 h]

lemma unescapeLoop_eq {unit value : CodeUnit} {count : ℕ} (fuel : ℕ)
    (h : unescapeUnit unit rest = (value, count)) : unescapeLoop (fuel + 1) (unit :: rest) =
      value :: unescapeLoop fuel ((unit :: rest).drop count) := by
  rw [unescapeLoop, h]

/-- One turn of `unescape` on what `escape` wrote for a unit gives the unit back. -/
lemma unescapeLoop_escapeUnit (unit : CodeUnit) (fuel : ℕ) :
    unescapeLoop (fuel + 1) (escapeUnit unit ++ rest) = unit :: unescapeLoop fuel rest := by
  have hlt := unit.toNat_lt
  have hfour : ∀ value, value &&& 0x0f = value % 16 :=
    fun value => and_two_pow_sub_one_eq_mod value 4
  have hfour' : unit.toNat >>> 4 = unit.toNat / 16 := shiftRight_eq_div_pow _ 4
  have height : unit.toNat >>> 8 = unit.toNat / 256 := shiftRight_eq_div_pow _ 8
  have htwelve : unit.toNat >>> 12 = unit.toNat / 4096 := shiftRight_eq_div_pow _ 12
  unfold escapeUnit
  rw [hfour, hfour, hfour, hfour', height, htwelve]
  split_ifs with hplain hbyte
  · have hunit : (unit == percent) = false := by
      rw [beq_eq_false_iff_ne]
      rintro rfl
      revert hplain
      decide
    have heq : unescapeUnit unit rest = (unit, 1) := by
      rw [unescapeUnit, hunit]
      rfl
    exact unescapeLoop_eq fuel heq
  · -- the `%XX` form
    have hbyte : unit.toNat < 256 := UInt16.lt_iff_toNat_lt.mp hbyte
    have hshort : unescapeForm 2 (hexUnit (unit.toNat / 16) :: hexUnit (unit.toNat % 16) :: rest) =
        some (unit.toNat / 16 * 16 + unit.toNat % 16) := by
      have hform := @unescapeForm_map rest [unit.toNat / 16, unit.toNat % 16] (by simp; omega)
      rw [foldl_cons, zero_mul, zero_add] at hform
      exact hform
    have hlong : unescapeLong (hexUnit (unit.toNat / 16) :: hexUnit (unit.toNat % 16) :: rest) =
        none := by
      rw [unescapeLong, hexUnit_ne _ (by omega)]
      rfl
    have hvalue : unit.toNat / 16 * 16 + unit.toNat % 16 = unit.toNat := by omega
    have heq : unescapeUnit percent (hexUnit (unit.toNat / 16) :: hexUnit (unit.toNat % 16) ::
        rest) = (unit, 3) := by
      rw [unescapeUnit, if_pos (beq_self_eq_true percent), hlong]
      rw [hshort]
      dsimp only
      rw [hvalue, ofNat_toNat]
    exact unescapeLoop_eq fuel heq
  · -- the `%uXXXX` form
    have hlong : unescapeLong (codeUnit 'u' :: hexUnit (unit.toNat / 4096) ::
        hexUnit (unit.toNat / 256 % 16) :: hexUnit (unit.toNat / 16 % 16) ::
        hexUnit (unit.toNat % 16) :: rest) = some unit.toNat := by
      have hform := @unescapeForm_map rest [unit.toNat / 4096, unit.toNat / 256 % 16,
        unit.toNat / 16 % 16, unit.toNat % 16] (by simp; omega)
      rw [unescapeLong, if_pos (beq_self_eq_true _)]
      apply hform.trans
      simp only [foldl_cons, foldl_nil]
      congr 1
      omega
    have heq : unescapeUnit percent (codeUnit 'u' :: hexUnit (unit.toNat / 4096) ::
        hexUnit (unit.toNat / 256 % 16) :: hexUnit (unit.toNat / 16 % 16) ::
        hexUnit (unit.toNat % 16) :: rest) = (unit, 6) := by
      rw [unescapeUnit, if_pos (beq_self_eq_true percent), hlong]
      dsimp only
      rw [ofNat_toNat]
    exact unescapeLoop_eq fuel heq

lemma escapeUnit_ne_nil (unit : CodeUnit) : escapeUnit unit ≠ [] := by
  unfold escapeUnit
  split_ifs <;> exact cons_ne_nil _ _

/-- `unescape` undoes `escape`. -/
theorem unescapeString_escapeString (units : List CodeUnit) :
    unescapeString (escapeString units) = units := by
  have hloop : ∀ fuel, (escapeString units).length ≤ fuel →
      unescapeLoop fuel (escapeString units) = units := by
    induction units with
    | nil => exact fun fuel _ => unescapeLoop.eq_1 fuel
    | cons unit units ih =>
      intro fuel hfuel
      have hpos := length_pos_of_ne_nil (escapeUnit_ne_nil unit)
      have happend : escapeString (unit :: units) = escapeUnit unit ++ escapeString units :=
        flatMap_cons
      rw [happend, length_append] at hfuel
      match fuel with
      | 0 => omega
      | fuel + 1 => rw [happend, unescapeLoop_escapeUnit, ih fuel (by omega)]
  exact hloop _ (le_refl _)

end

/-! ## Runs of escape sequences -/

variable {units rest run run' text : List CodeUnit} {octets : List UInt8} {octet : UInt8}
  {index start : ℕ}

/-- A position within a run of escape sequences that spells the UTF-8 encoding of a character. -/
def WithinRun (units : List CodeUnit) (index : ℕ) : Prop :=
  ∃ start run character, Escapes run (String.utf8EncodeChar character) ∧
    run <+: units.drop start ∧ start ≤ index ∧ index < start + run.length

/-! ## Places of the escape sequences -/

lemma Escapes.length_eq (h : Escapes run octets) : run.length = 3 * octets.length := by
  induction h with
  | nil => rfl
  | cons hhigh hlow hoctet hrun ih => simp only [length_cons]; omega

lemma HexDigit.ne_percent {unit : CodeUnit} {digit : ℕ} (h : HexDigit unit digit) :
    unit ≠ percent := by
  rintro rfl
  have hdigit := uriHexDigit_eq.mpr h
  have hnone : uriHexDigit percent = 16 := by decide
  omega

/-- A `%` of a run starts one of its escape sequences. -/
lemma Escapes.drop (h : Escapes run octets) (hstart : run[start]? = some percent) :
    ∃ skipped, start = 3 * skipped ∧ Escapes (run.drop start) (octets.drop skipped) := by
  induction h generalizing start with
  | nil => cases hstart
  | cons hhigh hlow hoctet hrun ih =>
    match start with
    | 0 => exact ⟨0, rfl, .cons hhigh hlow hoctet hrun⟩
    | 1 => exact absurd (Option.some.inj hstart) hhigh.ne_percent
    | 2 => exact absurd (Option.some.inj hstart) hlow.ne_percent
    | start + 3 =>
      obtain ⟨skipped, rfl, hdrop⟩ := ih hstart
      exact ⟨skipped + 1, rfl, hdrop⟩

/-- The octet an escape sequence spells is determined by its units. -/
lemma Escapes.first_eq {first first' : UInt8} {octets octets' : List UInt8}
    (h : Escapes run (first :: octets)) (h' : Escapes run' (first' :: octets'))
    (hbegins : run' <+: run ++ rest) : first' = first := by
  obtain ⟨tail, htail⟩ := hbegins
  cases h with
  | cons hhigh hlow hoctet hrun =>
    cases h' with
    | cons hhigh' hlow' hoctet' hrun' =>
      simp only [cons_append, cons.injEq] at htail
      obtain ⟨-, rfl, rfl, -⟩ := htail
      have hupper := (uriHexDigit_eq.mpr hhigh).1.symm.trans (uriHexDigit_eq.mpr hhigh').1
      have hlower := (uriHexDigit_eq.mpr hlow).1.symm.trans (uriHexDigit_eq.mpr hlow').1
      apply UInt8.toNat_inj.mp
      omega

/-! ## The octets of a character -/

/-- Only the first octet of a character is none of the continuation octets. -/
lemma utf8EncodeChar_octet {character : Char} {position : ℕ}
    (h : (String.utf8EncodeChar character)[position]? = some octet) :
    position = 0 ∧ (octet.toNat < 0x80 ∨ 0xc0 ≤ octet.toNat) ∨
      0 < position ∧ 0x80 ≤ octet.toNat ∧ octet.toNat < 0xc0 := by
  have hvalues := utf8EncodeChar_values character
  have hoctet : (utf8Values character.toNat)[position]? = some octet.toNat := by
    rw [← hvalues, getElem?_map, h, Option.map_some]
  unfold utf8Values at hoctet
  split_ifs at hoctet
  all_goals
    match position with
    | 0 | 1 | 2 | 3 | position + 4 =>
      simp at hoctet
      try omega

/-- The first octet of a character tells how many octets it has. -/
lemma utf8EncodeChar_length {character character' : Char} {first : UInt8}
    {octets octets' : List UInt8} (h : String.utf8EncodeChar character = first :: octets)
    (h' : String.utf8EncodeChar character' = first :: octets') :
    octets'.length = octets.length := by
  have hvalues := utf8EncodeChar_values character
  have hvalues' := utf8EncodeChar_values character'
  rw [h] at hvalues
  rw [h'] at hvalues'
  have hhead := utf8Values_head (char_toNat_le character) hvalues.symm
  have hhead' := utf8Values_head (char_toNat_le character') hvalues'.symm
  rcases hhead with ⟨hzero, rfl, -⟩ | hhead
  · rcases hhead' with ⟨-, rfl, -⟩ | hhead'
    · rfl
    · omega
  · rcases hhead' with ⟨hzero, rfl, -⟩ | hhead'
    · omega
    · omega

/-! ## Runs do not overlap -/

/-- A run within the string does not start inside an earlier run and reach past its end. -/
lemma run_within {character character' : Char}
    (hrun : Escapes run (String.utf8EncodeChar character))
    (hrun' : Escapes run' (String.utf8EncodeChar character'))
    (hbegins : run' <+: (run ++ rest).drop start) (hstart : start < run.length) :
    start + run'.length ≤ run.length := by
  rw [drop_append_of_le_length (Nat.le_of_lt hstart)] at hbegins
  obtain ⟨first', octets', hcharacter', -⟩ := utf8EncodeChar_cases character'
  rw [hcharacter'] at hrun'
  -- the inner run starts with a percent sign of the outer one
  have hpercent : run[start]? = some percent := by
    obtain ⟨tail, htail⟩ := hbegins
    cases hrun' with
    | cons =>
      have hhead := congrArg head? htail
      rw [head?_append, head?_append, head?_drop,
        getElem?_eq_getElem hstart] at hhead
      rw [getElem?_eq_getElem hstart]
      exact hhead.symm
  obtain ⟨skipped, rfl, hdrop⟩ := hrun.drop hpercent
  have hlength := hrun.length_eq
  cases hoctets : (String.utf8EncodeChar character).drop skipped with
  | nil =>
    have hle := drop_eq_nil_iff.mp hoctets
    omega
  | cons first octets =>
    rw [hoctets] at hdrop
    obtain rfl := hdrop.first_eq hrun' hbegins
    -- the first octet of the inner run is one of the outer character
    have hinner := @utf8EncodeChar_octet first' character' 0 (by rw [hcharacter']; rfl)
    have houter := @utf8EncodeChar_octet first' character skipped
      (by rw [← head?_drop, hoctets]; rfl)
    have hzero : skipped = 0 := by omega
    subst hzero
    have hsame := utf8EncodeChar_length hoctets hcharacter'
    have hlength' := hrun'.length_eq
    have hcount := congrArg length hoctets
    simp only [drop_zero, length_cons] at hlength' hcount
    omega

lemma withinRun_cons {unit : CodeUnit} (hunit : unit ≠ percent) :
    WithinRun (unit :: rest) (index + 1) ↔ WithinRun rest index := by
  constructor
  · rintro ⟨start, run, character, hrun, hbegins, hle, hlt⟩
    cases start with
    | zero =>
      have hhead := escapes_character hrun
      obtain ⟨tail, htail⟩ := hbegins
      cases run with
      | nil => exact absurd hhead.1 (by simp)
      | cons first run =>
        rw [head?_cons, Option.some.injEq] at hhead
        rw [cons_append, drop_zero, cons.injEq, hhead.2] at htail
        exact absurd htail.1.symm hunit
    | succ start => exact ⟨start, run, character, hrun, hbegins, by omega, by omega⟩
  · rintro ⟨start, run, character, hrun, hbegins, hle, hlt⟩
    exact ⟨start + 1, run, character, hrun, hbegins, by omega, by omega⟩

lemma withinRun_append {character : Char} (hrun : Escapes run (String.utf8EncodeChar character)) :
    WithinRun (run ++ rest) (run.length + index) ↔ WithinRun rest index := by
  constructor
  · rintro ⟨start, run', character', hrun', hbegins, hle, hlt⟩
    have hstart : run.length ≤ start := by
      apply Nat.le_of_not_lt
      intro hinside
      have hwithin := run_within hrun hrun' hbegins hinside
      omega
    obtain ⟨distance, rfl⟩ := Nat.exists_eq_add_of_le hstart
    rw [drop_append, drop_eq_nil_of_le (by omega), nil_append,
      Nat.add_sub_cancel_left] at hbegins
    exact ⟨distance, run', character', hrun', hbegins, by omega, by omega⟩
  · rintro ⟨start, run', character', hrun', hbegins, hle, hlt⟩
    refine ⟨run.length + start, run', character', hrun', ?_, by omega, by omega⟩
    rw [drop_append, drop_eq_nil_of_le (by omega), nil_append,
      Nat.add_sub_cancel_left]
    exact hbegins

/-- A string stands for something exactly when every `%` in it is in a run of escape sequences that
spells a character. -/
theorem exists_denotes_iff {preserved : Char → Bool} : (∃ text, Denotes preserved units text) ↔
    ∀ index, units[index]? = some percent → WithinRun units index := by
  constructor
  · rintro ⟨text, h⟩
    induction h with
    | nil =>
      intro index hindex
      cases hindex
    | unit hunit hrest ih =>
      intro index hindex
      cases index with
      | zero => exact absurd (Option.some.inj hindex) hunit
      | succ index => exact (withinRun_cons hunit).mpr (ih index hindex)
    | @run run units text character hrun hrest ih =>
      intro index hindex
      by_cases hlt : index < run.length
      · exact ⟨0, run, character, hrun, prefix_append _ _, Nat.zero_le _, by omega⟩
      · obtain ⟨distance, rfl⟩ := Nat.exists_eq_add_of_le (Nat.le_of_not_lt hlt)
        rw [getElem?_append_right (by omega), Nat.add_sub_cancel_left] at hindex
        exact (withinRun_append hrun).mpr (ih distance hindex)
  · intro h
    -- on the length of the string: what follows the first unit or the first run
    induction hlength : units.length using Nat.strongRecOn generalizing units with
    | ind length ih =>
      cases units with
      | nil => exact ⟨[], .nil⟩
      | cons unit rest =>
        rw [length_cons] at hlength
        by_cases hunit : unit = percent
        · subst hunit
          obtain ⟨start, run, character, hrun, hbegins, hle, hlt⟩ := h 0 rfl
          obtain rfl := Nat.le_zero.mp hle
          obtain ⟨tail, htail⟩ := hbegins
          rw [drop_zero] at htail
          have hcount := congrArg List.length htail
          rw [List.length_append, List.length_cons] at hcount
          obtain ⟨text, htext⟩ := ih tail.length (by omega) (by
            intro index hindex
            rw [← withinRun_append hrun, htail]
            apply h
            rw [← htail, getElem?_append_right (by omega), Nat.add_sub_cancel_left]
            exact hindex) rfl
          rw [← htail]
          exact ⟨_, .run hrun htext⟩
        · obtain ⟨text, htext⟩ := ih rest.length (by omega)
            (fun index hindex => (withinRun_cons hunit).mp (h (index + 1) hindex)) rfl
          exact ⟨_, .unit hunit htext⟩

/-! ## The functions -/

end Oseo.UriCoding
