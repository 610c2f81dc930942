import Oseo.DateTime.DateTheorems

/-!
# Written dates

A field of digits is read as the number it stands for (`dateReadDigits_units`,
`dateReadDigits_some`), and a padded number is such a field (`dateAppendPadded_eq`). The texts of
dates are made of fields, each within its number of digits, which name their components. A text of
the Date Time String Format has optional parts (`IsoText`), a text of this realm has a weekday and
an offset or none (`OwnText`).
-/

namespace Oseo.DateTime

section

open List
open Oseo.Library (fixedDigits fixedDigits_length fixedDigits_lt fixedDigits_lead padded_toDigits)
open Oseo.UriCoding (CodeUnit codeUnit between)

variable {units rest : List CodeUnit} {unit : CodeUnit} {character : Char} {width value digit : ℕ}
  {result : ℤ}

/-! ## Digits -/

/-- The unit of a digit. -/
def decimalUnit (digit : ℕ) : CodeUnit := codeUnit (Nat.digitChar digit)

/-- A field of digits. -/
def digitUnits (width value : ℕ) : List CodeUnit := (fixedDigits width value).map decimalUnit

lemma decimalUnit_facts : ∀ digit : Fin 10,
    between '0' '9' (decimalUnit digit) = true ∧
      (decimalUnit digit).toNat - '0'.toNat = digit := by
  decide

lemma decimalUnit_digit (hdigit : digit < 10) : between '0' '9' (decimalUnit digit) = true :=
  (decimalUnit_facts ⟨digit, hdigit⟩).1

/-- A digit is the unit of its value. -/
lemma between_digits (h : between '0' '9' unit = true) :
    unit.toNat - '0'.toNat < 10 ∧ unit = decimalUnit (unit.toNat - '0'.toNat) := by
  unfold between at h
  rw [Bool.and_eq_true, decide_eq_true_iff, decide_eq_true_iff, UInt16.le_iff_toNat_le,
    UInt16.le_iff_toNat_le] at h
  have hzero : (codeUnit '0').toNat = 48 := by decide
  have hnine : (codeUnit '9').toNat = 57 := by decide
  have hchar : '0'.toNat = 48 := by decide
  have hunits : ∀ digit : Fin 10, (decimalUnit digit).toNat = 48 + digit := by decide
  rw [hzero, hnine] at h
  rw [hchar]
  refine ⟨by omega, ?_⟩
  apply UInt16.toNat_inj.mp
  have hunit := hunits ⟨unit.toNat - 48, by omega⟩
  dsimp only at hunit
  omega

lemma dateDigit_cons (hdigit : digit < 10) :
    dateDigit (decimalUnit digit :: rest) = some digit := by
  obtain ⟨hbetween, hvalue⟩ := decimalUnit_facts ⟨digit, hdigit⟩
  rw [dateDigit, if_pos hbetween, hvalue]

lemma dateDigit_some (h : dateDigit units = some digit) :
    digit < 10 ∧ units = decimalUnit digit :: units.tail := by
  cases units with
  | nil => cases h
  | cons unit rest =>
    rw [dateDigit] at h
    split at h
    · next hbetween =>
      cases h
      obtain ⟨hlt, heq⟩ := between_digits hbetween
      exact ⟨hlt, congrArg (· :: rest) heq⟩
    · cases h

/-! ## Fields -/

lemma digitUnits_length (width value : ℕ) : (digitUnits width value).length = width := by
  unfold digitUnits
  rw [length_map, fixedDigits_length]

lemma digitUnits_between (h : unit ∈ digitUnits width value) : between '0' '9' unit = true := by
  obtain ⟨digit, hmem, rfl⟩ := mem_map.mp h
  exact decimalUnit_digit (fixedDigits_lt hmem)

lemma digitUnits_lead (hdigit : digit < 10) (hvalue : value < 10 ^ width) :
    digitUnits (width + 1) (digit * 10 ^ width + value) =
      decimalUnit digit :: digitUnits width value := by
  unfold digitUnits
  rw [fixedDigits_lead hdigit hvalue, map_cons]

/-- A number that fits, as its leading digit and what is left. -/
lemma split_lead (hvalue : value < 10 ^ (width + 1)) : value / 10 ^ width < 10 ∧
    value % 10 ^ width < 10 ^ width ∧
    value / 10 ^ width * 10 ^ width + value % 10 ^ width = value := by
  rw [Nat.pow_succ'] at hvalue
  refine ⟨Nat.div_lt_of_lt_mul (by rwa [Nat.mul_comm]), Nat.mod_lt _ (Nat.pow_pos (by decide)),
    Nat.div_add_mod' _ _⟩

/-- A loop over a field adds its number to the digits before it. -/
lemma dateReadDigitsLoop_units (hvalue : value < 10 ^ width) (accumulated : ℤ) :
    dateReadDigitsLoop width (digitUnits width value ++ rest) accumulated =
      some (accumulated * 10 ^ width + value, rest) := by
  induction width generalizing value accumulated with
  | zero =>
    have hzero : value = 0 := by omega
    rw [dateReadDigitsLoop, hzero, pow_zero, mul_one, Int.natCast_zero, add_zero]
    rfl
  | succ width ih =>
    obtain ⟨hdigit, hlower, hsplit⟩ := split_lead hvalue
    generalize value / 10 ^ width = digit at *
    generalize value % 10 ^ width = lower at *
    rw [← hsplit, digitUnits_lead hdigit hlower, cons_append, dateReadDigitsLoop,
      dateDigit_cons hdigit]
    dsimp only [tail_cons]
    rw [ih hlower]
    push_cast
    congr 2
    ring

lemma dateReadDigitsLoop_some {accumulated : ℤ}
    (h : dateReadDigitsLoop width units accumulated = some (result, rest)) :
    ∃ value < 10 ^ width, units = digitUnits width value ++ rest := by
  induction width generalizing units accumulated with
  | zero =>
    cases h
    exact ⟨0, by decide, rfl⟩
  | succ width ih =>
    rw [dateReadDigitsLoop] at h
    cases hdigit : dateDigit units with
    | none =>
      rw [hdigit] at h
      cases h
    | some digit =>
      rw [hdigit] at h
      obtain ⟨hlt, heq⟩ := dateDigit_some hdigit
      obtain ⟨value, hvalue, htail⟩ := ih h
      refine ⟨digit * 10 ^ width + value, ?_, ?_⟩
      · calc digit * 10 ^ width + value < digit * 10 ^ width + 10 ^ width := by omega
          _ = (digit + 1) * 10 ^ width := by ring
          _ ≤ 10 * 10 ^ width := Nat.mul_le_mul_right _ hlt
          _ = 10 ^ (width + 1) := by ring
      · rw [heq, htail, digitUnits_lead hlt hvalue]
        rfl

/-- A field is read as its number. -/
theorem dateReadDigits_units (hvalue : value < 10 ^ width) :
    dateReadDigits width (digitUnits width value ++ rest) = some ((value : ℤ), rest) := by
  unfold dateReadDigits
  rw [dateReadDigitsLoop_units hvalue, zero_mul, zero_add]

/-- Only fields are read. -/
theorem dateReadDigits_some (h : dateReadDigits width units = some (result, rest)) :
    ∃ value : ℕ, value < 10 ^ width ∧ result = value ∧ units = digitUnits width value ++ rest := by
  obtain ⟨value, hvalue, heq⟩ := dateReadDigitsLoop_some h
  rw [heq, dateReadDigits_units hvalue] at h
  cases h
  exact ⟨value, hvalue, rfl, heq⟩

/-! ## What comes next -/

lemma comesNext_cons : comesNext character (unit :: rest) = decide (unit = codeUnit character) := by
  unfold comesNext
  rw [head?_cons, decide_eq_decide, Option.some_inj]

/-- A unit that comes next is the first one. -/
lemma comesNext_true (h : comesNext character units = true) :
    units = codeUnit character :: units.tail := by
  cases units with
  | nil => cases h
  | cons unit rest =>
    rw [comesNext_cons, decide_eq_true_iff] at h
    rw [h, tail_cons]

lemma comesNext_self : comesNext character (codeUnit character :: rest) = true := by
  rw [comesNext_cons]
  exact decide_eq_true rfl

/-- No other character than a digit comes before a field. -/
lemma comesNext_units (hcharacter : between '0' '9' (codeUnit character) = false) :
    comesNext character (digitUnits (width + 1) value ++ rest) = false := by
  cases hunits : digitUnits (width + 1) value with
  | nil =>
    have hlength := digitUnits_length (width + 1) value
    rw [hunits] at hlength
    cases hlength
  | cons unit more =>
    have hunit : between '0' '9' unit = true := by
      apply digitUnits_between
      rw [hunits]
      exact mem_cons_self
    rw [cons_append, comesNext_cons, decide_eq_false_iff_not]
    rintro rfl
    rw [hcharacter] at hunit
    cases hunit

lemma dateExpect_cons : dateExpect character (codeUnit character :: rest) = some rest := by
  unfold dateExpect
  rw [comesNext_self, if_pos rfl, tail_cons]

lemma dateExpect_some (h : dateExpect character units = some rest) :
    units = codeUnit character :: rest := by
  unfold dateExpect at h
  split at h
  · next hnext =>
    cases h
    exact comesNext_true hnext
  · cases h

/-! ## Padding -/

lemma signedDecimal_natCast (value : ℕ) :
    signedDecimal value = (Nat.toDigits 10 value).map codeUnit := by
  unfold signedDecimal
  rw [if_neg (by omega), Int.natAbs_natCast, nil_append]

/-- A number that fits is padded to a field. -/
theorem dateAppendPadded_eq (hwidth : 0 < width) (hvalue : value < 10 ^ width) :
    dateAppendPadded value width = digitUnits width value := by
  unfold dateAppendPadded digitUnits
  dsimp only
  rw [signedDecimal_natCast, length_map, ← map_replicate, ← map_append,
    padded_toDigits hwidth hvalue, map_map]
  rfl

end

/-! ## Fields of a date -/

open Oseo.UriCoding (CodeUnit codeUnit)

/-! ## Components -/

/-- The date and the clock time that a text names, and their offset from UTC in minutes. -/
structure Written where
  date : CivilDate
  clock : ClockTime
  offset : ℤ

/-- The milliseconds of a clock time. -/
def ClockTime.total (clock : ClockTime) : ℤ :=
  clock.hour * msPerHour + clock.minute * msPerMinute + clock.second * msPerSecond +
    clock.millisecond

/-- A clock time of a day. -/
structure ClockTime.Valid (clock : ClockTime) : Prop where
  hour_nonneg : 0 ≤ clock.hour
  hour_lt : clock.hour < 24
  minute_nonneg : 0 ≤ clock.minute
  minute_lt : clock.minute < 60
  second_nonneg : 0 ≤ clock.second
  second_lt : clock.second < 60
  millisecond_nonneg : 0 ≤ clock.millisecond
  millisecond_lt : clock.millisecond < 1000

/-- The clock time of the end of a day. -/
def endOfDay : ClockTime := ⟨24, 0, 0, 0⟩

/-- The components of an integer time, by the calendar. -/
def civilDate (time : ℤ) : CivilDate := dateCivilFromDays (time / msPerDay)

def clockTime (time : ℤ) : ClockTime :=
  ⟨time % msPerDay / msPerHour, time % msPerDay / msPerMinute % 60,
    time % msPerDay / msPerSecond % 60, time % msPerDay % 1000⟩

/-- The components of an integer time, as the writers take them. -/
def fieldsOf (time : ℤ) : DateFields where
  year := (civilDate time).year
  month := (civilDate time).month - 1
  day := (civilDate time).day
  weekday := (time / msPerDay + 4) % 7
  hour := (clockTime time).hour
  minute := (clockTime time).minute
  second := (clockTime time).second
  millisecond := (clockTime time).millisecond

/-- A local time has the components that are written. -/
def Written.Denotes (written : Written) (time : ℤ) : Prop :=
  civilDate time = written.date ∧ clockTime time = written.clock

/-- The day number of the written date, when days are counted on from the first of its month. -/
def Written.days (written : Written) : ℤ :=
  dateDaysFromCivil written.date.year written.date.month 1 + written.date.day - 1

/-- The local time of the written components, by plain counting. -/
def Written.localTime (written : Written) : ℤ :=
  written.days * msPerDay + written.clock.total

/-- The time value of the written components. -/
def Written.time (written : Written) : ℤ := written.localTime - written.offset * msPerMinute

/-! ## The Date Time String Format -/

/-- A sign. -/
def signCharacter (negative : Bool) : Char := if negative then '-' else '+'

/-- A year: four digits, or a sign and six. -/
inductive IsoYear where
  | basic (year : Fin 10000)
  | expanded (negative : Bool) (year : Fin 1000000)

def IsoYear.units : IsoYear → List CodeUnit
  | .basic year => digitUnits 4 year
  | .expanded negative year => codeUnit (signCharacter negative) :: digitUnits 6 year

def IsoYear.value : IsoYear → ℤ
  | .basic year => year
  | .expanded negative year => if negative then -(year : ℤ) else year

/-- There is no negative year 0. -/
def IsoYear.Checked : IsoYear → Prop
  | .basic _ => True
  | .expanded negative year => negative = true → (year : ℕ) ≠ 0

/-- A month and a day, which can both be absent. -/
inductive IsoDate where
  | yearOnly
  | toMonth (month : Fin 100)
  | toDay (month day : Fin 100)

def IsoDate.units : IsoDate → List CodeUnit
  | .yearOnly => []
  | .toMonth month => codeUnit '-' :: digitUnits 2 month
  | .toDay month day => codeUnit '-' :: (digitUnits 2 month ++ codeUnit '-' :: digitUnits 2 day)

def IsoDate.month : IsoDate → ℤ
  | .yearOnly => 1
  | .toMonth month => month
  | .toDay month _ => month

def IsoDate.day : IsoDate → ℤ
  | .toDay _ day => day
  | _ => 1

def IsoDate.Checked (date : IsoDate) : Prop :=
  1 ≤ date.month ∧ date.month ≤ 12 ∧ 1 ≤ date.day ∧ date.day ≤ 31

instance (date : IsoDate) : Decidable date.Checked := inferInstanceAs (Decidable (_ ∧ _))

/-- Seconds and milliseconds, which can both be absent. -/
inductive IsoSeconds where
  | toMinute
  | toSecond (second : Fin 100)
  | toMillisecond (second : Fin 100) (millisecond : Fin 1000)

def IsoSeconds.units : IsoSeconds → List CodeUnit
  | .toMinute => []
  | .toSecond second => codeUnit ':' :: digitUnits 2 second
  | .toMillisecond second millisecond =>
    codeUnit ':' :: (digitUnits 2 second ++ codeUnit '.' :: digitUnits 3 millisecond)

def IsoSeconds.second : IsoSeconds → ℤ
  | .toMinute => 0
  | .toSecond second => second
  | .toMillisecond second _ => second

def IsoSeconds.millisecond : IsoSeconds → ℤ
  | .toMillisecond _ millisecond => millisecond
  | _ => 0

/-- An offset from UTC. -/
inductive IsoOffset where
  | localTime
  | utc
  | offset (negative : Bool) (hour minute : Fin 100)

def IsoOffset.units : IsoOffset → List CodeUnit
  | .localTime => []
  | .utc => [codeUnit 'Z']
  | .offset negative hour minute =>
    codeUnit (signCharacter negative) ::
      (digitUnits 2 hour ++ codeUnit ':' :: digitUnits 2 minute)

/-- The minutes of a signed offset. -/
def offsetMinutes (negative : Bool) (hour minute : ℕ) : ℤ :=
  if negative then -((hour : ℤ) * 60 + minute) else (hour : ℤ) * 60 + minute

def IsoOffset.value : IsoOffset → ℤ
  | .offset negative hour minute => offsetMinutes negative hour minute
  | _ => 0

def IsoOffset.Checked : IsoOffset → Prop
  | .offset _ hour minute => (hour : ℕ) ≤ 23 ∧ (minute : ℕ) ≤ 59
  | _ => True

/-- A time with its offset. -/
structure IsoTime where
  hour : Fin 100
  minute : Fin 100
  seconds : IsoSeconds
  offset : IsoOffset

def IsoTime.clockUnits (time : IsoTime) : List CodeUnit :=
  digitUnits 2 time.hour ++ codeUnit ':' :: (digitUnits 2 time.minute ++ time.seconds.units)

def IsoTime.clock (time : IsoTime) : ClockTime :=
  ⟨(time.hour : ℕ), (time.minute : ℕ), time.seconds.second, time.seconds.millisecond⟩

/-- The hours go up to 24, but no further than the end of the day. -/
def ClockTime.Checked (clock : ClockTime) : Prop :=
  clock.hour ≤ 24 ∧ clock.minute ≤ 59 ∧ clock.second ≤ 59 ∧ (clock.hour = 24 → clock = endOfDay)

instance (clock : ClockTime) : Decidable clock.Checked := inferInstanceAs (Decidable (_ ∧ _))

/-- A text of the Date Time String Format. -/
structure IsoText where
  year : IsoYear
  date : IsoDate
  time : Option IsoTime

def IsoText.timeUnits (text : IsoText) : List CodeUnit :=
  match text.time with
  | none => []
  | some time => codeUnit 'T' :: (time.clockUnits ++ time.offset.units)

def IsoText.units (text : IsoText) : List CodeUnit :=
  text.year.units ++ (text.date.units ++ text.timeUnits)

/-- What the text names. -/
def IsoText.written (text : IsoText) : Written where
  date := ⟨text.year.value, text.date.month, text.date.day⟩
  clock := match text.time with
    | none => ⟨0, 0, 0, 0⟩
    | some time => time.clock
  offset := match text.time with
    | none => 0
    | some time => time.offset.value

/-- The range checks of the parser. -/
structure IsoText.Checked (text : IsoText) : Prop where
  year : text.year.Checked
  date : text.date.Checked
  clock : text.written.clock.Checked
  offset : ∀ time, text.time = some time → time.offset.Checked

/-! ## The formats of this realm -/

/-- A year of this realm: a sign for a negative one, and four to six digits. -/
structure OwnYear where
  negative : Bool
  width : ℕ
  digits : ℕ
  least : 4 ≤ width
  most : width ≤ 6
  fits : digits < 10 ^ width

def OwnYear.units (year : OwnYear) : List CodeUnit :=
  (if year.negative then [codeUnit '-'] else []) ++ digitUnits year.width year.digits

def OwnYear.value (year : OwnYear) : ℤ :=
  if year.negative then -(year.digits : ℤ) else year.digits

/-- A year as the writers write it: year 0 has no sign, and zeros lead only up to four digits. -/
structure OwnYear.Canonical (year : OwnYear) : Prop where
  sign : year.negative = true → year.digits ≠ 0
  zeros : year.width = 4 ∨ 10 ^ (year.width - 1) ≤ year.digits

/-- The end of a text of this realm: nothing in the format of `toUTCString`, otherwise an offset
and an optional name. -/
inductive OwnZone where
  | utc
  | zone (negative : Bool) (hour minute : Fin 100) (name : Option (List CodeUnit))

def nameUnits : Option (List CodeUnit) → List CodeUnit
  | none => []
  | some name => codeUnit ' ' :: codeUnit '(' :: (name ++ [codeUnit ')'])

def OwnZone.units : OwnZone → List CodeUnit
  | .utc => []
  | .zone negative hour minute name =>
    codeUnit (signCharacter negative) :: (digitUnits 2 hour ++ (digitUnits 2 minute ++ nameUnits name))

def OwnZone.value : OwnZone → ℤ
  | .utc => 0
  | .zone negative hour minute _ => offsetMinutes negative hour minute

def OwnZone.Checked : OwnZone → Prop
  | .utc => True
  | .zone _ hour minute _ => (hour : ℕ) ≤ 23 ∧ (minute : ℕ) ≤ 59

instance : (zone : OwnZone) → Decidable zone.Checked
  | .utc => .isTrue trivial
  | .zone .. => inferInstanceAs (Decidable (_ ∧ _))

def OwnZone.isUtc : OwnZone → Bool
  | .utc => true
  | .zone .. => false

/-- A text of this realm. -/
structure OwnText where
  weekday : Fin 7
  month : Fin 12
  day : Fin 100
  year : OwnYear
  hour : Fin 100
  minute : Fin 100
  second : Fin 100
  zone : OwnZone

/-- The weekday, the day, the month and the year, in the order of the format. -/
def ownDateUnits (utcFormat : Bool) (weekday month day year : List CodeUnit) : List CodeUnit :=
  if utcFormat then
    weekday ++ codeUnit ',' :: codeUnit ' ' ::
      (day ++ codeUnit ' ' :: (month ++ codeUnit ' ' :: year))
  else
    weekday ++ codeUnit ' ' :: (month ++ codeUnit ' ' :: (day ++ codeUnit ' ' :: year))

/-- The hours, minutes and seconds, with the name of the time scale. -/
def ownTimeUnits (hour minute second : List CodeUnit) : List CodeUnit :=
  hour ++ codeUnit ':' :: (minute ++ codeUnit ':' :: (second ++ asciiUnits " GMT"))

def OwnText.units (text : OwnText) : List CodeUnit :=
  ownDateUnits text.zone.isUtc (dateName dateWeekdayNames (text.weekday : ℕ))
      (dateName dateMonthNames (text.month : ℕ)) (digitUnits 2 text.day) text.year.units ++
    codeUnit ' ' ::
      (ownTimeUnits (digitUnits 2 text.hour) (digitUnits 2 text.minute) (digitUnits 2 text.second) ++
        text.zone.units)

/-- What the text names. -/
def OwnText.written (text : OwnText) : Written where
  date := ⟨text.year.value, (text.month : ℕ) + 1, (text.day : ℕ)⟩
  clock := ⟨(text.hour : ℕ), (text.minute : ℕ), (text.second : ℕ), 0⟩
  offset := text.zone.value

/-- The checks of the parser: of the ranges, and of the weekday. -/
structure OwnText.Checked (text : OwnText) : Prop where
  hour : (text.hour : ℕ) ≤ 24
  minute : (text.minute : ℕ) ≤ 59
  second : (text.second : ℕ) ≤ 59
  zone : text.zone.Checked
  weekday : (text.written.days + 4) % 7 = (text.weekday : ℕ)

/-- A text of this realm as its writers write the components of a time, up to the offset and the
name of the zone. -/
def OwnText.WrittenFor (text : OwnText) (time : ℤ) : Prop :=
  text.units = match text.zone with
    | .utc => dateUtcText (fieldsOf time)
    | .zone .. => dateAppendDateString (fieldsOf time) ++ asciiUnits " " ++
        dateAppendTimeString (fieldsOf time) ++ text.zone.units

/-! ## The Date Time String Format

`date_parse_iso` accepts a text of the format exactly when its fields pass the range checks
(`dateParseIso_units`), and it accepts nothing else (`dateParseIso_some`).
-/

open List
open Option
open Oseo.Library (Number)
open Oseo.Library.Number (ofInt)
open Oseo.UriCoding (CodeUnit codeUnit between)

variable {units rest : List CodeUnit} {character : Char}

/-! ## Fields behind a unit -/

/-- A field of two digits. -/
lemma readTwo (value : Fin 100) :
    dateReadDigits 2 (digitUnits 2 value ++ rest) = some (((value : ℕ) : ℤ), rest) :=
  dateReadDigits_units (lt_of_lt_of_eq value.isLt (by decide))

lemma readThree (value : Fin 1000) :
    dateReadDigits 3 (digitUnits 3 value ++ rest) = some (((value : ℕ) : ℤ), rest) :=
  dateReadDigits_units (lt_of_lt_of_eq value.isLt (by decide))

lemma readTwo_some {result : ℤ} (h : dateReadDigits 2 units = some (result, rest)) :
    ∃ value : Fin 100, units = digitUnits 2 value ++ rest := by
  obtain ⟨value, hvalue, -, hunits⟩ := dateReadDigits_some h
  exact ⟨⟨value, lt_of_lt_of_eq hvalue (by decide)⟩, hunits⟩

lemma readThree_some {result : ℤ} (h : dateReadDigits 3 units = some (result, rest)) :
    ∃ value : Fin 1000, units = digitUnits 3 value ++ rest := by
  obtain ⟨value, hvalue, -, hunits⟩ := dateReadDigits_some h
  exact ⟨⟨value, lt_of_lt_of_eq hvalue (by decide)⟩, hunits⟩

/-- A sign comes next. -/
lemma sign_next (h : (comesNext '+' units || comesNext '-' units) = true) :
    ∃ negative, units = codeUnit (signCharacter negative) :: units.tail := by
  rcases Bool.or_eq_true_iff.mp h with hplus | hminus
  · exact ⟨false, comesNext_true hplus⟩
  · exact ⟨true, comesNext_true hminus⟩

lemma sign_comes (negative : Bool) :
    (comesNext '+' (codeUnit (signCharacter negative) :: rest) ||
      comesNext '-' (codeUnit (signCharacter negative) :: rest)) = true ∧
    comesNext '-' (codeUnit (signCharacter negative) :: rest) = negative := by
  rw [comesNext_cons, comesNext_cons]
  revert negative
  decide

lemma sign_other {negative : Bool}
    (h : ∀ negative, codeUnit (signCharacter negative) ≠ codeUnit character) :
    comesNext character (codeUnit (signCharacter negative) :: rest) = false := by
  rw [comesNext_cons]
  exact decide_eq_false (h negative)

/-! ## Years -/

lemma dateParseIsoYear_units (year : IsoYear) (result : ℤ × List CodeUnit) :
    dateParseIsoYear (year.units ++ rest) = some result ↔
      year.Checked ∧ result = (year.value, rest) := by
  unfold dateParseIsoYear
  cases year with
  | basic year =>
    have hread : dateReadDigits 4 (digitUnits 4 year ++ rest) = some (((year : ℕ) : ℤ), rest) :=
      dateReadDigits_units (lt_of_lt_of_eq year.isLt (by decide))
    have hunits : (IsoYear.basic year).units = digitUnits 4 year := rfl
    have hchecked : (IsoYear.basic year).Checked ↔ True := .rfl
    have hvalue : (IsoYear.basic year).value = (year : ℕ) := rfl
    rw [hunits, comesNext_units (by decide), comesNext_units (by decide), Bool.or_self,
      if_neg Bool.false_ne_true, hread, some_inj, hchecked, true_and, hvalue, eq_comm]
  | expanded negative year =>
    have hread : dateReadDigits 6 (digitUnits 6 year ++ rest) = some (((year : ℕ) : ℤ), rest) :=
      dateReadDigits_units (lt_of_lt_of_eq year.isLt (by decide))
    obtain ⟨hsign, hnegative⟩ := @sign_comes (digitUnits 6 year ++ rest) negative
    have hunits : (IsoYear.expanded negative year).units ++ rest =
      codeUnit (signCharacter negative) :: (digitUnits 6 year ++ rest) := rfl
    have hchecked : (IsoYear.expanded negative year).Checked ↔ (negative = true → (year : ℕ) ≠ 0) :=
      .rfl
    have hvalue : (IsoYear.expanded negative year).value =
      if negative then -((year : ℕ) : ℤ) else ((year : ℕ) : ℤ) := rfl
    rw [hunits, hsign, if_pos rfl, tail_cons, hread, bind_some]
    dsimp only
    rw [hnegative, hchecked, hvalue]
    by_cases hzero : negative = true ∧ (year : ℕ) = 0
    · rw [if_pos (by simp [hzero.1, hzero.2])]
      constructor
      · intro h
        cases h
      · rintro ⟨hchecked, -⟩
        exact absurd hzero.2 (hchecked hzero.1)
    · rw [if_neg (by simpa using hzero), some_inj]
      constructor
      · rintro rfl
        exact ⟨fun hneg hyear => hzero ⟨hneg, hyear⟩, rfl⟩
      · rintro ⟨-, rfl⟩
        rfl

lemma dateParseIsoYear_some {result : ℤ} (h : dateParseIsoYear units = some (result, rest)) :
    ∃ year : IsoYear, units = year.units ++ rest := by
  unfold dateParseIsoYear at h
  split at h
  · next hsign =>
    obtain ⟨negative, hunits⟩ := sign_next hsign
    obtain ⟨⟨year, rest'⟩, hread, h⟩ := bind_eq_some_iff.mp h
    obtain ⟨value, hvalue, -, htail⟩ := dateReadDigits_some hread
    have hrest : rest' = rest := by
      dsimp only at h
      split at h
      · cases h
      · cases h
        rfl
    refine ⟨.expanded negative ⟨value, hvalue⟩, ?_⟩
    rw [hunits, htail, hrest]
    rfl
  · obtain ⟨value, hvalue, -, hunits⟩ := dateReadDigits_some h
    exact ⟨.basic ⟨value, hvalue⟩, hunits⟩

/-! ## Months and days -/

lemma dateParseIsoDate_units (date : IsoDate) (hrest : comesNext '-' rest = false)
    (result : (ℤ × ℤ) × List CodeUnit) :
    dateParseIsoDate (date.units ++ rest) = some result ↔
      date.Checked ∧ result = ((date.month, date.day), rest) := by
  unfold dateParseIsoDate IsoDate.Checked
  cases date with
  | yearOnly =>
    have hunits : IsoDate.yearOnly.units ++ rest = rest := rfl
    rw [hunits, hrest, if_neg Bool.false_ne_true, some_inj, eq_comm]
    simp [IsoDate.month, IsoDate.day]
  | toMonth month =>
    have hunits : (IsoDate.toMonth month).units ++ rest =
      codeUnit '-' :: (digitUnits 2 month ++ rest) := rfl
    rw [hunits, comesNext_self, if_pos rfl, tail_cons, readTwo, bind_some]
    dsimp only [IsoDate.month, IsoDate.day]
    rw [hrest, if_neg Bool.false_ne_true]
    split
    · next hrange =>
      simp at hrange ⊢
      omega
    · next hrange =>
      simp at hrange ⊢
      rw [eq_comm]
      simp
      omega
  | toDay month day =>
    have hunits : (IsoDate.toDay month day).units ++ rest =
        codeUnit '-' :: (digitUnits 2 month ++ codeUnit '-' :: (digitUnits 2 day ++ rest)) := by
      simp [IsoDate.units]
    rw [hunits, comesNext_self, if_pos rfl, tail_cons, readTwo, bind_some]
    dsimp only [IsoDate.month, IsoDate.day]
    rw [comesNext_self, if_pos rfl, tail_cons, readTwo, bind_some]
    split
    · next hrange =>
      simp at hrange ⊢
      omega
    · next hrange =>
      split
      · next hday =>
        simp at hday ⊢
        omega
      · next hday =>
        simp at hrange hday ⊢
        rw [eq_comm]
        simp
        omega

lemma dateParseIsoDate_some {result : ℤ × ℤ} (h : dateParseIsoDate units = some (result, rest)) :
    ∃ date : IsoDate, units = date.units ++ rest := by
  unfold dateParseIsoDate at h
  split at h
  · next hnext =>
    have hunits := comesNext_true hnext
    obtain ⟨⟨month, behind⟩, hread, h⟩ := bind_eq_some_iff.mp h
    obtain ⟨monthField, htail⟩ := readTwo_some hread
    dsimp only at h
    split at h
    · cases h
    · split at h
      · next hnext' =>
        have hbehind := comesNext_true hnext'
        obtain ⟨⟨day, rest'⟩, hread', h⟩ := bind_eq_some_iff.mp h
        obtain ⟨dayField, htail'⟩ := readTwo_some hread'
        split at h
        · cases h
        · cases h
          refine ⟨.toDay monthField dayField, ?_⟩
          rw [hunits, htail, hbehind, htail']
          simp [IsoDate.units]
      · cases h
        refine ⟨.toMonth monthField, ?_⟩
        rw [hunits, htail]
        rfl
  · cases h
    exact ⟨.yearOnly, rfl⟩

/-! ## Clock times -/

lemma dateParseIsoSeconds_units (seconds : IsoSeconds) (hcolon : comesNext ':' rest = false)
    (hdot : comesNext '.' rest = false) (result : (ℤ × ℤ) × List CodeUnit) :
    dateParseIsoSeconds (seconds.units ++ rest) = some result ↔
      seconds.second ≤ 59 ∧ result = ((seconds.second, seconds.millisecond), rest) := by
  unfold dateParseIsoSeconds
  cases seconds with
  | toMinute =>
    have hunits : IsoSeconds.toMinute.units ++ rest = rest := rfl
    rw [hunits, hcolon, if_neg Bool.false_ne_true, some_inj, eq_comm]
    simp [IsoSeconds.second, IsoSeconds.millisecond]
  | toSecond second =>
    have hunits : (IsoSeconds.toSecond second).units ++ rest =
      codeUnit ':' :: (digitUnits 2 second ++ rest) := rfl
    rw [hunits, comesNext_self, if_pos rfl, tail_cons, readTwo, bind_some]
    dsimp only [IsoSeconds.second, IsoSeconds.millisecond]
    rw [hdot, if_neg Bool.false_ne_true]
    split
    · next hrange =>
      simp
      omega
    · next hrange =>
      rw [some_inj, eq_comm]
      simp
      omega
  | toMillisecond second millisecond =>
    have hunits : (IsoSeconds.toMillisecond second millisecond).units ++ rest =
        codeUnit ':' ::
          (digitUnits 2 second ++ codeUnit '.' :: (digitUnits 3 millisecond ++ rest)) := by
      simp [IsoSeconds.units]
    rw [hunits, comesNext_self, if_pos rfl, tail_cons, readTwo, bind_some]
    dsimp only [IsoSeconds.second, IsoSeconds.millisecond]
    rw [comesNext_self, if_pos rfl, tail_cons, readThree, bind_some]
    split
    · next hrange =>
      simp
      omega
    · next hrange =>
      rw [some_inj, eq_comm]
      simp
      omega

lemma dateParseIsoSeconds_some {result : ℤ × ℤ}
    (h : dateParseIsoSeconds units = some (result, rest)) :
    ∃ seconds : IsoSeconds, units = seconds.units ++ rest := by
  unfold dateParseIsoSeconds at h
  split at h
  · next hnext =>
    have hunits := comesNext_true hnext
    obtain ⟨⟨second, behind⟩, hread, h⟩ := bind_eq_some_iff.mp h
    obtain ⟨secondField, htail⟩ := readTwo_some hread
    dsimp only at h
    split at h
    · cases h
    · split at h
      · next hnext' =>
        have hbehind := comesNext_true hnext'
        obtain ⟨⟨millisecond, rest'⟩, hread', h⟩ := bind_eq_some_iff.mp h
        obtain ⟨millisecondField, htail'⟩ := readThree_some hread'
        cases h
        refine ⟨.toMillisecond secondField millisecondField, ?_⟩
        rw [hunits, htail, hbehind, htail']
        simp [IsoSeconds.units]
      · cases h
        refine ⟨.toSecond secondField, ?_⟩
        rw [hunits, htail]
        rfl
  · cases h
    exact ⟨.toMinute, rfl⟩

lemma dateParseIsoTime_units (time : IsoTime) (hcolon : comesNext ':' rest = false)
    (hdot : comesNext '.' rest = false) (result : ClockTime × List CodeUnit) :
    dateParseIsoTime (time.clockUnits ++ rest) = some result ↔
      time.clock.Checked ∧ result = (time.clock, rest) := by
  have hunits : time.clockUnits ++ rest = digitUnits 2 time.hour ++ codeUnit ':' ::
      (digitUnits 2 time.minute ++ (time.seconds.units ++ rest)) := by
    simp [IsoTime.clockUnits]
  have hclock : time.clock = ⟨(time.hour : ℕ), (time.minute : ℕ), time.seconds.second,
    time.seconds.millisecond⟩ := rfl
  have hend : ∀ minute second millisecond : ℤ, (.mk 24 minute second millisecond =
      endOfDay ↔ minute = 0 ∧ second = 0 ∧ millisecond = 0) := by
    intro minute second millisecond
    simp [endOfDay]
  unfold dateParseIsoTime
  rw [hunits, readTwo, bind_some]
  unfold ClockTime.Checked
  rw [hclock]
  dsimp only
  generalize ((time.hour : ℕ) : ℤ) = hour
  split
  · next hhour =>
    simp
    omega
  · next hhour =>
    rw [dateExpect_cons, bind_some, readTwo, bind_some]
    generalize ((time.minute : ℕ) : ℤ) = minute
    split
    · next hminute =>
      simp
      omega
    · next hminute =>
      rw [bind_eq_some_iff]
      constructor
      · rintro ⟨parsed, hparse, h⟩
        obtain ⟨hsecond, rfl⟩ := (dateParseIsoSeconds_units time.seconds hcolon hdot parsed).mp hparse
        split at h
        · cases h
        · next hlast =>
          cases h
          refine ⟨⟨by omega, by omega, hsecond, ?_⟩, rfl⟩
          rintro rfl
          have hzero : (minute = 0 ∧ time.seconds.second = 0) ∧ time.seconds.millisecond = 0 := by
            simpa using hlast
          exact (hend _ _ _).mpr ⟨hzero.1.1, hzero.1.2, hzero.2⟩
      · rintro ⟨⟨-, -, hsecond, hlast⟩, rfl⟩
        refine ⟨_, (dateParseIsoSeconds_units time.seconds hcolon hdot _).mpr ⟨hsecond, rfl⟩, ?_⟩
        rw [if_neg]
        intro hcontra
        simp only [Bool.and_eq_true, Bool.or_eq_true, decide_eq_true_iff] at hcontra
        obtain ⟨rfl, hne⟩ := hcontra
        obtain ⟨hminute, hsecond, hmillisecond⟩ := (hend _ _ _).mp (hlast rfl)
        omega

lemma dateParseIsoTime_some {result : ClockTime}
    (h : dateParseIsoTime units = some (result, rest)) :
    ∃ hour minute seconds, units = IsoTime.clockUnits ⟨hour, minute, seconds, .utc⟩ ++ rest := by
  obtain ⟨⟨hour, behindHour⟩, hread, h⟩ := bind_eq_some_iff.mp h
  obtain ⟨hourField, hunits⟩ := readTwo_some hread
  dsimp only at h
  split at h
  · cases h
  · obtain ⟨behindColon, hexpect, h⟩ := bind_eq_some_iff.mp h
    obtain ⟨⟨minute, behindMinute⟩, hread', h⟩ := bind_eq_some_iff.mp h
    obtain ⟨minuteField, htail⟩ := readTwo_some hread'
    dsimp only at h
    split at h
    · cases h
    · obtain ⟨⟨parsed, rest'⟩, hparse, h⟩ := bind_eq_some_iff.mp h
      obtain ⟨seconds, hseconds⟩ := dateParseIsoSeconds_some hparse
      split at h
      · cases h
      · cases h
        refine ⟨hourField, minuteField, seconds, ?_⟩
        rw [hunits, dateExpect_some hexpect, htail, hseconds]
        simp [IsoTime.clockUnits]

/-! ## Offsets -/

/-- The minutes of a signed offset, as a double. -/
lemma offset_is {negative : Bool} {hour minute : ℕ} (hhour : hour ≤ 23) (hminute : minute ≤ 59) :
    (if negative then (ofInt ((hour : ℤ) * 60 + minute)).neg
      else ofInt ((hour : ℤ) * 60 + minute)).Is ((offsetMinutes negative hour minute : ℤ) : ℚ) := by
  have hbound : |(hour : ℤ) * 60 + minute| ≤ 2 ^ 53 := by
    rw [abs_le]
    omega
  cases negative with
  | true => exact (is_ofInt hbound).neg_int hbound
  | false => exact is_ofInt hbound

/-- The offset of the local time. -/
lemma localOffset_is :
    (dateLocalTimeZoneAdjustment.neg.div (ofInt msPerMinute)).Is ((0 : ℤ) : ℚ) := by
  have hzero : dateLocalTimeZoneAdjustment.neg.Is ((-0 : ℤ) : ℚ) :=
    (is_ofInt (by decide)).neg_int (by decide)
  have hminute : (ofInt msPerMinute).Is ((60000 : ℤ) : ℚ) := is_ofInt (by decide)
  obtain ⟨a, ha, hvalue⟩ := hzero
  obtain ⟨b, hb, -⟩ := hminute
  rw [ha, hb]
  show (Number.ofRat (a.value / b.value)).Is _
  rw [hvalue, neg_zero, Int.cast_zero, zero_div]
  exact is_ofInt (n := 0) (by decide)

lemma dateParseIsoOffset_units (offset : IsoOffset) (hchecked : offset.Checked) :
    ∃ x : Number, x.Is offset.value ∧ dateParseIsoOffset true offset.units = some (x, []) := by
  unfold dateParseIsoOffset
  cases offset with
  | localTime => exact ⟨_, localOffset_is, rfl⟩
  | utc => exact ⟨_, is_ofInt (n := 0) (by decide), rfl⟩
  | offset negative hour minute =>
    obtain ⟨hhour, hminute⟩ := hchecked
    have hunits : (IsoOffset.offset negative hour minute).units =
      codeUnit (signCharacter negative) ::
        (digitUnits 2 hour ++ codeUnit ':' :: (digitUnits 2 minute ++ [])) := by
      simp [IsoOffset.units]
    obtain ⟨hsign, hnegative⟩ := @sign_comes
      (digitUnits 2 hour ++ codeUnit ':' :: (digitUnits 2 minute ++ [])) negative
    refine ⟨_, offset_is hhour hminute, ?_⟩
    rw [hunits, sign_other (by decide), hsign, hnegative]
    show (dateReadDigits 2 (digitUnits 2 hour ++ _)).bind _ = _
    rw [readTwo, bind_some]
    dsimp only
    rw [if_neg (by omega), dateExpect_cons, bind_some, readTwo, bind_some]
    rw [if_neg (by omega)]

lemma dateParseIsoOffset_checked {offset : IsoOffset} {result : Number × List CodeUnit}
    (h : dateParseIsoOffset true offset.units = some result) : offset.Checked := by
  unfold dateParseIsoOffset at h
  cases offset with
  | localTime => exact trivial
  | utc => exact trivial
  | offset negative hour minute =>
    have hunits : (IsoOffset.offset negative hour minute).units =
      codeUnit (signCharacter negative) ::
        (digitUnits 2 hour ++ codeUnit ':' :: (digitUnits 2 minute ++ [])) := by
      simp [IsoOffset.units]
    obtain ⟨hsign, hnegative⟩ := @sign_comes
      (digitUnits 2 hour ++ codeUnit ':' :: (digitUnits 2 minute ++ [])) negative
    rw [hunits, sign_other (by decide), hsign, hnegative] at h
    change (dateReadDigits 2 (digitUnits 2 hour ++ _)).bind _ = _ at h
    rw [readTwo, bind_some] at h
    dsimp only at h
    split at h
    · cases h
    · next hhour =>
      rw [dateExpect_cons, bind_some, readTwo, bind_some] at h
      split at h
      · cases h
      · next hminute => exact ⟨by omega, by omega⟩

lemma dateParseIsoOffset_some {hasTime : Bool} {result : Number}
    (h : dateParseIsoOffset hasTime units = some (result, [])) :
    (hasTime = false → units = []) ∧ ∃ offset : IsoOffset, units = offset.units := by
  unfold dateParseIsoOffset at h
  split at h
  · cases h
  · next hnone =>
    split at h
    · next hmore =>
      have htime : hasTime = true := by
        simp only [Bool.and_eq_true, not_and, hmore, true_implies] at hnone
        simpa using hnone
      refine ⟨fun hfalse => absurd (hfalse.symm.trans htime) Bool.false_ne_true, ?_⟩
      split at h
      · next hutc =>
        have htail : units.tail = [] := (Prod.mk.inj (some.inj h)).2
        refine ⟨.utc, ?_⟩
        rw [comesNext_true hutc, htail]
        rfl
      · split at h
        · next hsign =>
          obtain ⟨negative, hunits⟩ := sign_next hsign
          obtain ⟨⟨hour, behindHour⟩, hread, h⟩ := bind_eq_some_iff.mp h
          obtain ⟨hourField, htail⟩ := readTwo_some hread
          dsimp only at h
          split at h
          · cases h
          · obtain ⟨behindColon, hexpect, h⟩ := bind_eq_some_iff.mp h
            obtain ⟨⟨minute, rest'⟩, hread', h⟩ := bind_eq_some_iff.mp h
            obtain ⟨minuteField, htail'⟩ := readTwo_some hread'
            split at h
            · cases h
            · have hrest : rest' = [] := (Prod.mk.inj (some.inj h)).2
              refine ⟨.offset negative hourField minuteField, ?_⟩
              rw [hunits, htail, dateExpect_some hexpect, htail', hrest, append_nil]
              rfl
        · cases h
    · next hnil =>
      have hunits : units = [] := by
        cases units with
        | nil => rfl
        | cons _ _ => exact absurd rfl hnil
      exact ⟨fun _ => hunits, .localTime, hunits⟩

/-! ## Texts of the format -/

lemma offset_boundary (offset : IsoOffset) :
    comesNext ':' offset.units = false ∧ comesNext '.' offset.units = false := by
  cases offset with
  | localTime => exact ⟨rfl, rfl⟩
  | utc => decide
  | offset negative hour minute =>
    exact ⟨sign_other (by decide), sign_other (by decide)⟩

lemma timeUnits_boundary (text : IsoText) : comesNext '-' text.timeUnits = false := by
  unfold IsoText.timeUnits
  split
  · rfl
  · rw [comesNext_cons]
    decide

/-- The day of a date, as the parser makes it. -/
def CivilDate.makeDay (date : CivilDate) : Number :=
  dateMakeDay (ofInt date.year) (ofInt (date.month - 1)) (ofInt date.day)

/-- A text whose fields pass the checks is parsed as what it names. -/
theorem dateParseIso_units {text : IsoText} (h : text.Checked) :
    ∃ x : Number, x.Is text.written.offset ∧ dateParseIso text.units =
      some (dateCompose text.written.date.makeDay text.written.clock x) := by
  have hyear := (@dateParseIsoYear_units (text.date.units ++ text.timeUnits) text.year _).mpr
    ⟨h.year, rfl⟩
  have hdate := (dateParseIsoDate_units text.date (timeUnits_boundary text) _).mpr ⟨h.date, rfl⟩
  unfold dateParseIso IsoText.units
  rw [hyear, bind_some]
  dsimp only
  rw [hdate, bind_some]
  cases htime : text.time with
  | none =>
    have hunits : text.timeUnits = [] := by
      unfold IsoText.timeUnits
      rw [htime]
    have hwritten : text.written = ⟨⟨text.year.value, text.date.month, text.date.day⟩,
        ⟨0, 0, 0, 0⟩, 0⟩ := by
      unfold IsoText.written
      rw [htime]
    rw [hunits, hwritten]
    exact ⟨_, is_ofInt (n := 0) (by decide), rfl⟩
  | some time =>
    have hunits : text.timeUnits = codeUnit 'T' :: (time.clockUnits ++ time.offset.units) := by
      unfold IsoText.timeUnits
      rw [htime]
    have hwritten : text.written = ⟨⟨text.year.value, text.date.month, text.date.day⟩,
        time.clock, time.offset.value⟩ := by
      unfold IsoText.written
      rw [htime]
    have hclock := h.clock
    obtain ⟨hcolon, hdot⟩ := offset_boundary time.offset
    obtain ⟨x, hx, hoffset⟩ := dateParseIsoOffset_units time.offset (h.offset time htime)
    rw [hwritten] at hclock ⊢
    have hparse := (dateParseIsoTime_units time hcolon hdot _).mpr ⟨hclock, rfl⟩
    refine ⟨x, hx, ?_⟩
    rw [hunits, comesNext_self, if_pos rfl, tail_cons, hparse, bind_some]
    rw [hoffset]
    rfl

/-- The fields of a text that is accepted pass the checks. -/
lemma dateParseIso_checked {text : IsoText} {result : Number}
    (h : dateParseIso text.units = some result) : text.Checked := by
  obtain ⟨parsedYear, hyear, h⟩ := bind_eq_some_iff.mp h
  obtain ⟨hyearChecked, rfl⟩ := (dateParseIsoYear_units text.year _).mp hyear
  obtain ⟨parsedDate, hdate, h⟩ := bind_eq_some_iff.mp h
  obtain ⟨hdateChecked, rfl⟩ := (dateParseIsoDate_units text.date (timeUnits_boundary text) _).mp
    hdate
  dsimp only at h
  cases htime : text.time with
  | none =>
    refine ⟨hyearChecked, hdateChecked, ?_, ?_⟩
    · unfold IsoText.written
      rw [htime]
      show ClockTime.Checked ⟨0, 0, 0, 0⟩
      exact ⟨by decide, by decide, by decide, by decide⟩
    · intro time hsome
      cases hsome.symm.trans htime
  | some time =>
    have hunits : text.timeUnits = codeUnit 'T' :: (time.clockUnits ++ time.offset.units) := by
      unfold IsoText.timeUnits
      rw [htime]
    obtain ⟨hcolon, hdot⟩ := offset_boundary time.offset
    rw [hunits, comesNext_self, if_pos rfl, tail_cons] at h
    obtain ⟨parsedTime, hclock, h⟩ := bind_eq_some_iff.mp h
    obtain ⟨hclockChecked, rfl⟩ := (dateParseIsoTime_units time hcolon hdot _).mp hclock
    obtain ⟨parsedOffset, hoffset, -⟩ := bind_eq_some_iff.mp h
    refine ⟨hyearChecked, hdateChecked, ?_, ?_⟩
    · unfold IsoText.written
      rw [htime]
      exact hclockChecked
    · intro other hsome
      cases hsome.symm.trans htime
      exact dateParseIsoOffset_checked hoffset

/-- Only texts of the format are accepted. -/
theorem dateParseIso_some {result : Number} (h : dateParseIso units = some result) :
    ∃ text : IsoText, units = text.units := by
  obtain ⟨⟨parsedYear, behindYear⟩, hyear, h⟩ := bind_eq_some_iff.mp h
  obtain ⟨year, hunits⟩ := dateParseIsoYear_some hyear
  obtain ⟨⟨parsedDate, behindDate⟩, hdate, h⟩ := bind_eq_some_iff.mp h
  obtain ⟨date, hbehind⟩ := dateParseIsoDate_some hdate
  dsimp only at h
  obtain ⟨⟨parsedTime, behindTime⟩, htime, h⟩ := bind_eq_some_iff.mp h
  obtain ⟨⟨parsedOffset, rest⟩, hoffset, h⟩ := bind_eq_some_iff.mp h
  have hrest : rest = [] := by
    cases rest with
    | nil => rfl
    | cons _ _ => cases h
  subst hrest
  obtain ⟨hdateOnly, offset, hoffsetUnits⟩ := dateParseIsoOffset_some hoffset
  dsimp only at hdateOnly hoffsetUnits
  cases hnext : comesNext 'T' behindDate with
  | true =>
    rw [hnext, if_pos rfl] at htime
    obtain ⟨hour, minute, seconds, htimeUnits⟩ := dateParseIsoTime_some htime
    refine ⟨⟨year, date, some ⟨hour, minute, seconds, offset⟩⟩, ?_⟩
    rw [hunits, hbehind, comesNext_true hnext, htimeUnits, hoffsetUnits]
    rfl
  | false =>
    rw [hnext, if_neg Bool.false_ne_true] at htime
    cases htime
    refine ⟨⟨year, date, none⟩, ?_⟩
    rw [hunits, hbehind, hdateOnly hnext]
    rfl

end Oseo.DateTime
