import Oseo.Library.Rounding
import Oseo.UriCoding.UriDecoding

/-!
# Dates and their texts

The civil date of a day number and the day number of a civil date, as `runtime_date.c` computes
them with truncating divisions, the calendar they are measured by, and the operations on time
values. A setter is given the arguments it converted: the conversions run before any component is
read.
-/

namespace Oseo.DateTime

/-- A year, a month from 1 on and a day from 1 on. -/
@[ext]
structure CivilDate where
  year : ℤ
  month : ℤ
  day : ℤ
deriving DecidableEq, Repr

/-! ## The calendar -/

/-- Every fourth year is a leap year, of the centuries only every fourth. -/
def IsLeapYear (year : ℤ) : Prop := year % 4 = 0 ∧ (year % 100 ≠ 0 ∨ year % 400 = 0)

instance (year : ℤ) : Decidable (IsLeapYear year) := inferInstanceAs (Decidable (_ ∧ _))

def daysInMonth (year month : ℤ) : ℤ :=
  if month = 2 then if IsLeapYear year then 29 else 28
  else if month = 4 ∨ month = 6 ∨ month = 9 ∨ month = 11 then 30
  else 31

/-- A date of the calendar. -/
structure CivilDate.Valid (date : CivilDate) : Prop where
  month_pos : 1 ≤ date.month
  month_le : date.month ≤ 12
  day_pos : 1 ≤ date.day
  day_le : date.day ≤ daysInMonth date.year date.month

/-- The date that follows. -/
def CivilDate.next (date : CivilDate) : CivilDate :=
  if date.day < daysInMonth date.year date.month then { date with day := date.day + 1 }
  else if date.month < 12 then ⟨date.year, date.month + 1, 1⟩
  else ⟨date.year + 1, 1, 1⟩

/-- The date of day number 0. -/
def epoch : CivilDate := ⟨1970, 1, 1⟩

/-! ## The source -/

/-- The civil year, month and day of a day number. -/
def dateCivilFromDays (days : ℤ) : CivilDate :=
  let shifted := days + 719468
  let era := (if 0 ≤ shifted then shifted else shifted - 146096).tdiv 146097
  let dayOfEra := shifted - era * 146097
  let yearOfEra := (dayOfEra - dayOfEra.tdiv 1460 + dayOfEra.tdiv 36524 -
    dayOfEra.tdiv 146096).tdiv 365
  let civilYear := yearOfEra + era * 400
  let dayOfYear := dayOfEra - (365 * yearOfEra + yearOfEra.tdiv 4 - yearOfEra.tdiv 100)
  let shiftedMonth := (5 * dayOfYear + 2).tdiv 153
  let day := dayOfYear - (153 * shiftedMonth + 2).tdiv 5 + 1
  let month := if shiftedMonth < 10 then shiftedMonth + 3 else shiftedMonth - 9
  ⟨civilYear + if month ≤ 2 then 1 else 0, month, day⟩

/-- The day number of a civil date. -/
def dateDaysFromCivil (year month day : ℤ) : ℤ :=
  let shiftedYear := year - if month ≤ 2 then 1 else 0
  let era := (if 0 ≤ shiftedYear then shiftedYear else shiftedYear - 399).tdiv 400
  let yearOfEra := shiftedYear - era * 400
  let dayOfYear := (153 * (if 2 < month then month - 3 else month + 9) + 2).tdiv 5 + day - 1
  let dayOfEra := yearOfEra * 365 + yearOfEra.tdiv 4 - yearOfEra.tdiv 100 + dayOfYear
  era * 146097 + dayOfEra - 719468

/-- The day number of a date. -/
def CivilDate.days (date : CivilDate) : ℤ := dateDaysFromCivil date.year date.month date.day

/-! ## Time values -/

open Library

def msPerDay : ℤ := 86400000

def msPerHour : ℤ := 3600000

def msPerMinute : ℤ := 60000

def msPerSecond : ℤ := 1000

def timeValueLimit : ℚ := 8640000000000000

/-- Comparison with a constant; NaN compares with nothing. -/
def exceeds (bound : ℚ) : Number → Bool
  | .nan => false
  | .infinite _ => true
  | .finite x => bound < |x.value|

/-- The conversion to an integer type of a number within its range. -/
def toInt64 : Number → ℤ
  | .finite x => Number.truncated x.value
  | _ => 0

/-- A number below zero. -/
def isNegative : Number → Bool
  | .nan => false
  | .infinite negative => negative
  | .finite x => x.value < 0

/-- A number other than zero. -/
def isNonzero : Number → Bool
  | .finite x => x.value ≠ 0
  | _ => true

/-- The modulo whose result takes the sign of the divisor. -/
def dateModulo (value divisor : Number) : Number :=
  let remainder := value.fmod divisor
  if isNonzero remainder && isNegative remainder != isNegative divisor then remainder.add divisor
  else remainder

def dateDay (t : Number) : Number := (t.div (.ofInt msPerDay)).floor

def dateTimeWithinDay (t : Number) : Number := dateModulo t (.ofInt msPerDay)

/-- The components of a time value, the month from 0 on. -/
structure DateFields where
  year : ℤ
  month : ℤ
  day : ℤ
  weekday : ℤ
  hour : ℤ
  minute : ℤ
  second : ℤ
  millisecond : ℤ
deriving DecidableEq, Repr

/-- The components of one finite time value. -/
def dateFields (t : Number) : DateFields :=
  let dayNumber := dateDay t
  let withinDay := dateTimeWithinDay t
  let date := dateCivilFromDays (toInt64 dayNumber)
  { year := date.year
    month := date.month - 1
    day := date.day
    weekday := toInt64 (dateModulo (dayNumber.add (.ofInt 4)) (.ofInt 7))
    hour := toInt64 (withinDay.div (.ofInt msPerHour)).floor
    minute := toInt64 (dateModulo (withinDay.div (.ofInt msPerMinute)).floor (.ofInt 60))
    second := toInt64 (dateModulo (withinDay.div (.ofInt msPerSecond)).floor (.ofInt 60))
    millisecond := toInt64 (dateModulo withinDay (.ofInt 1000)) }

/-- The local time zone is UTC. -/
def dateLocalTimeZoneAdjustment : Number := .ofInt 0

def dateLocalTime (t : Number) : Number :=
  if t.isFinite then t.add dateLocalTimeZoneAdjustment else .nan

def dateUtcTime (t : Number) : Number :=
  if t.isFinite then t.add dateLocalTimeZoneAdjustment.neg else .nan

/-- ToIntegerOrInfinity. -/
def dateToInteger : Number → Number
  | .nan => .ofInt 0
  | .infinite negative => .infinite negative
  | .finite x => (Number.finite x).trunc

def dateMakeTime (hour minute second millisecond : Number) : Number :=
  if !hour.isFinite || !minute.isFinite || !second.isFinite || !millisecond.isFinite then .nan
  else
    ((((dateToInteger hour).mul (.ofInt msPerHour)).add
      ((dateToInteger minute).mul (.ofInt msPerMinute))).add
      ((dateToInteger second).mul (.ofInt msPerSecond))).add (dateToInteger millisecond)

def dateMakeDay (year month day : Number) : Number :=
  if !year.isFinite || !month.isFinite || !day.isFinite then .nan
  else
    let integralMonth := dateToInteger month
    let resolvedYear := (dateToInteger year).add (integralMonth.div (.ofInt 12)).floor
    if !resolvedYear.isFinite || exceeds 1000000000 resolvedYear then .nan
    else
      let resolvedMonth := dateModulo integralMonth (.ofInt 12)
      let days := dateDaysFromCivil (toInt64 resolvedYear) (toInt64 resolvedMonth + 1) 1
      ((Number.ofInt days).add (dateToInteger day)).add (.ofInt (-1))

def dateMakeDate (day time : Number) : Number :=
  if !day.isFinite || !time.isFinite then .nan
  else
    let value := (day.mul (.ofInt msPerDay)).add time
    if value.isFinite then value else .nan

def dateTimeClip (time : Number) : Number :=
  if !time.isFinite || exceeds timeValueLimit time then .nan else dateToInteger time

/-! ## The component setters -/

/-- The component setters. -/
inductive DateMethod where
  | setDate
  | setFullYear
  | setHours
  | setMilliseconds
  | setMinutes
  | setMonth
  | setSeconds
  | setUTCDate
  | setUTCFullYear
  | setUTCHours
  | setUTCMilliseconds
  | setUTCMinutes
  | setUTCMonth
  | setUTCSeconds
deriving DecidableEq, Repr

/-- A setter's argument window over the seven components, from the year to the millisecond. -/
structure DateSetter where
  first : ℕ
  count : ℕ
  isLocal : Bool

def DateMethod.shape : DateMethod → DateSetter
  | .setDate => ⟨2, 1, true⟩
  | .setFullYear => ⟨0, 3, true⟩
  | .setHours => ⟨3, 4, true⟩
  | .setMilliseconds => ⟨6, 1, true⟩
  | .setMinutes => ⟨4, 3, true⟩
  | .setMonth => ⟨1, 2, true⟩
  | .setSeconds => ⟨5, 2, true⟩
  | .setUTCDate => ⟨2, 1, false⟩
  | .setUTCFullYear => ⟨0, 3, false⟩
  | .setUTCHours => ⟨3, 4, false⟩
  | .setUTCMilliseconds => ⟨6, 1, false⟩
  | .setUTCMinutes => ⟨4, 3, false⟩
  | .setUTCMonth => ⟨1, 2, false⟩
  | .setUTCSeconds => ⟨5, 2, false⟩

/-- The seven components a setter starts from. -/
def DateFields.components (fields : DateFields) : List Number :=
  [fields.year, fields.month, fields.day, fields.hour, fields.minute, fields.second,
    fields.millisecond].map Number.ofInt

/-- The components with the supplied ones in their window. -/
def supply (components : List Number) (first : ℕ) (supplied : List Number) : List Number :=
  components.mapIdx fun index component =>
    if first ≤ index then (supplied[index - first]?).getD component else component

/-- The new time value of a date. The first parameter is always converted, the others of the window
when they are present. -/
def dateSetFields (method : DateMethod) (timeValue : Number) (supplied : List Number) : Number :=
  let setter := method.shape
  if timeValue matches .nan && setter.first != 0 then .nan
  else
    let base := match timeValue with
      | .nan => .ofInt 0
      | _ => if setter.isLocal then dateLocalTime timeValue else timeValue
    let components := supply (dateFields base).components setter.first (supplied.take setter.count)
    match components with
    | [year, month, day, hour, minute, second, millisecond] =>
      let composed := dateMakeDate (dateMakeDay year month day)
        (dateMakeTime hour minute second millisecond)
      dateTimeClip (if setter.isLocal then dateUtcTime composed else composed)
    | _ => .nan

/-! ## Texts of dates

The three writers and the two parsers of `runtime_date.c`. A string is its list of UTF-16 code
units; a parser of the source keeps a cursor into it, here it keeps the units from that cursor on.
What a writer appends to its buffer is the list it returns.
-/

open Oseo.Library (Number)
open Oseo.Library.Number (ofInt)
open Oseo.UriCoding (CodeUnit codeUnit between)

/-- The units of an ASCII text of the source. -/
def asciiUnits (text : String) : List CodeUnit := text.toList.map codeUnit

def dateWeekdayNames : List String := ["Sun", "Mon", "Tue", "Wed", "Thu", "Fri", "Sat"]

def dateMonthNames : List String :=
  ["Jan", "Feb", "Mar", "Apr", "May", "Jun", "Jul", "Aug", "Sep", "Oct", "Nov", "Dec"]

/-! ## Writing -/

/-- What a writer ends with instead of a string: a RangeError, or a diagnostic of the runtime. -/
inductive DateTextError where
  | rangeError (message : String)
  | diagnostic (message : String)
deriving DecidableEq, Repr

/-- The prototype methods that write a date, its time, or both. -/
inductive DateTextMethod where
  | toString
  | toDateString
  | toTimeString
deriving DecidableEq, Repr

/-- `date_text_string`. -/
def dateTextString (text : List CodeUnit) : Except DateTextError (List CodeUnit) :=
  if 128 < text.length then .error (.diagnostic "Date text is too long.") else .ok text

/-- What `snprintf` writes for `%lld`. -/
def signedDecimal (value : ℤ) : List CodeUnit :=
  (if value < 0 then [codeUnit '-'] else []) ++ (Nat.toDigits 10 value.natAbs).map codeUnit

/-- `date_append_padded`. -/
def dateAppendPadded (value : ℤ) (width : ℕ) : List CodeUnit :=
  let digits := signedDecimal value
  List.replicate (width - digits.length) (codeUnit '0') ++ digits

/-- The year as two of the writers append it. -/
def dateAppendYear (fields : DateFields) : List CodeUnit :=
  (if fields.year < 0 then asciiUnits "-" else []) ++
    dateAppendPadded (if fields.year < 0 then -fields.year else fields.year) 4

/-- A name of a table. -/
def dateName (names : List String) (index : ℤ) : List CodeUnit :=
  asciiUnits (names.getD index.toNat "")

/-- `date_append_date_string`. -/
def dateAppendDateString (fields : DateFields) : List CodeUnit :=
  dateName dateWeekdayNames fields.weekday ++ asciiUnits " " ++
    dateName dateMonthNames fields.month ++ asciiUnits " " ++
    dateAppendPadded fields.day 2 ++ asciiUnits " " ++ dateAppendYear fields

/-- `date_append_time_string`. -/
def dateAppendTimeString (fields : DateFields) : List CodeUnit :=
  dateAppendPadded fields.hour 2 ++ asciiUnits ":" ++ dateAppendPadded fields.minute 2 ++
    asciiUnits ":" ++ dateAppendPadded fields.second 2 ++ asciiUnits " GMT"

/-- `date_append_time_zone_string`. -/
def dateAppendTimeZoneString : List CodeUnit := asciiUnits "+0000 (Coordinated Universal Time)"

/-- `date_to_date_string`. -/
def dateToDateString (timeValue : Number) (method : DateTextMethod) :
    Except DateTextError (List CodeUnit) :=
  match timeValue with
  | .nan => dateTextString (asciiUnits "Invalid Date")
  | _ =>
    let fields := dateFields (dateLocalTime timeValue)
    dateTextString <|
      (if method ≠ .toTimeString then dateAppendDateString fields else []) ++
        if method ≠ .toDateString then
          (if method ≠ .toTimeString then asciiUnits " " else []) ++
            dateAppendTimeString fields ++ dateAppendTimeZoneString
        else []

/-- The text of `date_to_utc_string` for the components of a time value. -/
def dateUtcText (fields : DateFields) : List CodeUnit :=
  dateName dateWeekdayNames fields.weekday ++ asciiUnits ", " ++
    dateAppendPadded fields.day 2 ++ asciiUnits " " ++ dateName dateMonthNames fields.month ++
    asciiUnits " " ++ dateAppendYear fields ++ asciiUnits " " ++ dateAppendTimeString fields

/-- `date_to_utc_string`. -/
def dateToUtcString (timeValue : Number) : Except DateTextError (List CodeUnit) :=
  match timeValue with
  | .nan => dateTextString (asciiUnits "Invalid Date")
  | _ => dateTextString (dateUtcText (dateFields timeValue))

/-- The year of `date_to_iso_string`. -/
def dateIsoYear (year : ℤ) : List CodeUnit :=
  if year < 0 then asciiUnits "-" ++ dateAppendPadded (-year) 6
  else if 9999 < year then asciiUnits "+" ++ dateAppendPadded year 6
  else dateAppendPadded year 4

/-- `date_to_iso_string`. -/
def dateToIsoString (timeValue : Number) : Except DateTextError (List CodeUnit) :=
  match timeValue with
  | .nan => .error (.rangeError "Date.prototype.toISOString requires a valid time value.")
  | _ =>
    let fields := dateFields timeValue
    dateTextString <|
      dateIsoYear fields.year ++ asciiUnits "-" ++ dateAppendPadded (fields.month + 1) 2 ++
        asciiUnits "-" ++ dateAppendPadded fields.day 2 ++ asciiUnits "T" ++
        dateAppendPadded fields.hour 2 ++ asciiUnits ":" ++ dateAppendPadded fields.minute 2 ++
        asciiUnits ":" ++ dateAppendPadded fields.second 2 ++ asciiUnits "." ++
        dateAppendPadded fields.millisecond 3 ++ asciiUnits "Z"

/-! ## Reading -/

/-- `date_digit`. -/
def dateDigit : List CodeUnit → Option ℕ
  | [] => none
  | unit :: _ => if between '0' '9' unit then some (unit.toNat - '0'.toNat) else none

/-- The loop of `date_read_digits`. -/
def dateReadDigitsLoop : (count : ℕ) → List CodeUnit → (accumulated : ℤ) →
    Option (ℤ × List CodeUnit)
  | 0, units, accumulated => some (accumulated, units)
  | count + 1, units, accumulated =>
    match dateDigit units with
    | none => none
    | some digit => dateReadDigitsLoop count units.tail (accumulated * 10 + digit)

/-- `date_read_digits`. -/
def dateReadDigits (count : ℕ) (units : List CodeUnit) : Option (ℤ × List CodeUnit) :=
  dateReadDigitsLoop count units 0

/-- Whether a character comes next. -/
def comesNext (character : Char) (units : List CodeUnit) : Bool :=
  units.head? = some (codeUnit character)

/-- `date_expect`. -/
def dateExpect (character : Char) (units : List CodeUnit) : Option (List CodeUnit) :=
  if comesNext character units then some units.tail else none

/-- The hours, minutes, seconds and milliseconds of a day. -/
@[ext]
structure ClockTime where
  hour : ℤ
  minute : ℤ
  second : ℤ
  millisecond : ℤ
deriving DecidableEq, Repr

/-- The time value of a date and a clock time at an offset. -/
def dateCompose (day : Number) (time : ClockTime) (offsetMinutes : Number) : Number :=
  let composed := dateMakeDate day
    (dateMakeTime (ofInt time.hour) (ofInt time.minute) (ofInt time.second)
      (ofInt time.millisecond))
  dateTimeClip (composed.add (offsetMinutes.mul (ofInt msPerMinute)).neg)

/-! ## The Date Time String Format -/

/-- The year of `date_parse_iso`. -/
def dateParseIsoYear (units : List CodeUnit) : Option (ℤ × List CodeUnit) :=
  if comesNext '+' units || comesNext '-' units then
    (dateReadDigits 6 units.tail).bind fun (year, rest) =>
      if comesNext '-' units && year = 0 then none
      else some (if comesNext '-' units then -year else year, rest)
  else dateReadDigits 4 units

/-- The month and the day of `date_parse_iso`, both 1 when they are absent. -/
def dateParseIsoDate (units : List CodeUnit) : Option ((ℤ × ℤ) × List CodeUnit) :=
  if comesNext '-' units then
    (dateReadDigits 2 units.tail).bind fun (month, rest) =>
      if month < 1 || 12 < month then none
      else if comesNext '-' rest then
        (dateReadDigits 2 rest.tail).bind fun (day, rest) =>
          if day < 1 || 31 < day then none else some ((month, day), rest)
      else some ((month, 1), rest)
  else some ((1, 1), units)

/-- The seconds and the milliseconds of `date_parse_iso`, both 0 when they are absent. -/
def dateParseIsoSeconds (units : List CodeUnit) : Option ((ℤ × ℤ) × List CodeUnit) :=
  if comesNext ':' units then
    (dateReadDigits 2 units.tail).bind fun (second, rest) =>
      if 59 < second then none
      else if comesNext '.' rest then
        (dateReadDigits 3 rest.tail).bind fun (millisecond, rest) =>
          some ((second, millisecond), rest)
      else some ((second, 0), rest)
  else some ((0, 0), units)

/-- The time of `date_parse_iso`, behind its `T`. -/
def dateParseIsoTime (units : List CodeUnit) : Option (ClockTime × List CodeUnit) :=
  (dateReadDigits 2 units).bind fun (hour, rest) =>
    if 24 < hour then none
    else (dateExpect ':' rest).bind fun rest =>
      (dateReadDigits 2 rest).bind fun (minute, rest) =>
        if 59 < minute then none
        else (dateParseIsoSeconds rest).bind fun ((second, millisecond), rest) =>
          if hour = 24 && (minute ≠ 0 || second ≠ 0 || millisecond ≠ 0) then none
          else some (⟨hour, minute, second, millisecond⟩, rest)

/-- The UTC offset of `date_parse_iso`, in minutes, with the units behind it. -/
def dateParseIsoOffset (hasTime : Bool) (units : List CodeUnit) :
    Option (Number × List CodeUnit) :=
  if !units.isEmpty && !hasTime then none
  else if !units.isEmpty then
    if comesNext 'Z' units then some (ofInt 0, units.tail)
    else if comesNext '+' units || comesNext '-' units then
      (dateReadDigits 2 units.tail).bind fun (hour, rest) =>
        if 23 < hour then none
        else (dateExpect ':' rest).bind fun rest =>
          (dateReadDigits 2 rest).bind fun (minute, rest) =>
            if 59 < minute then none
            else
              let minutes := ofInt (hour * 60 + minute)
              some (if comesNext '-' units then minutes.neg else minutes, rest)
    else none
  else if hasTime then some (dateLocalTimeZoneAdjustment.neg.div (ofInt msPerMinute), units)
  else some (ofInt 0, units)

/-- `date_parse_iso`. -/
def dateParseIso (units : List CodeUnit) : Option Number :=
  (dateParseIsoYear units).bind fun (year, rest) =>
    (dateParseIsoDate rest).bind fun ((month, day), rest) =>
      let hasTime := comesNext 'T' rest
      (if hasTime then dateParseIsoTime rest.tail else some (⟨0, 0, 0, 0⟩, rest)).bind
        fun (time, rest) =>
          (dateParseIsoOffset hasTime rest).bind fun (offsetMinutes, rest) =>
            if !rest.isEmpty then none
            else some (dateCompose (dateMakeDay (ofInt year) (ofInt (month - 1)) (ofInt day)) time
              offsetMinutes)

/-! ## The formats of this realm -/

/-- `date_named_index`. -/
def dateNamedIndex (names : List String) (units : List CodeUnit) : Option ℕ :=
  if units.length < 3 then none
  else names.findIdx? fun name => units.take 3 = asciiUnits name

/-- The month and the day of `date_parse_own_format`, in the order of the format. -/
def dateParseOwnDate (utcFormat : Bool) (units : List CodeUnit) :
    Option ((ℕ × ℤ) × List CodeUnit) :=
  if utcFormat then
    (dateReadDigits 2 units).bind fun (day, rest) =>
      (dateExpect ' ' rest).bind fun rest =>
        (dateNamedIndex dateMonthNames rest).bind fun month => some ((month, day), rest.drop 3)
  else
    (dateNamedIndex dateMonthNames units).bind fun month =>
      (dateExpect ' ' (units.drop 3)).bind fun rest =>
        (dateReadDigits 2 rest).bind fun (day, rest) => some ((month, day), rest)

/-- The year of `date_parse_own_format`: four to six digits. -/
def dateParseOwnYear (units : List CodeUnit) : Option (ℤ × List CodeUnit) :=
  let negativeYear := comesNext '-' units
  let rest := if negativeYear then units.tail else units
  let yearDigits := (rest.takeWhile (between '0' '9')).length
  if yearDigits < 4 || 6 < yearDigits then none
  else (dateReadDigits yearDigits rest).bind fun (year, rest) =>
    some (if negativeYear then -year else year, rest)

/-- The time of `date_parse_own_format`. -/
def dateParseOwnTime (units : List CodeUnit) : Option (ClockTime × List CodeUnit) :=
  (dateReadDigits 2 units).bind fun (hour, rest) =>
    (dateExpect ':' rest).bind fun rest =>
      (dateReadDigits 2 rest).bind fun (minute, rest) =>
        (dateExpect ':' rest).bind fun rest =>
          (dateReadDigits 2 rest).bind fun (second, rest) =>
            if 24 < hour || 59 < minute || 59 < second then none
            else some (⟨hour, minute, second, 0⟩, rest)

/-- The parenthesized zone name: the units behind it, none when it is malformed. -/
def dateSkipZoneName (units : List CodeUnit) : Option (List CodeUnit) :=
  if units.isEmpty then some units
  else (dateExpect ' ' units).bind fun rest =>
    (dateExpect '(' rest).bind fun _ =>
      if units.getLast? ≠ some (codeUnit ')') then none else some []

/-- The offset of `date_parse_own_format`, in minutes, and the zone name. -/
def dateParseOwnZone (units : List CodeUnit) : Option (Number × List CodeUnit) :=
  let negativeOffset := comesNext '-' units
  if !negativeOffset && !comesNext '+' units then none
  else (dateReadDigits 2 units.tail).bind fun (hour, rest) =>
    (dateReadDigits 2 rest).bind fun (minute, rest) =>
      if 23 < hour || 59 < minute then none
      else
        let minutes := ofInt (hour * 60 + minute)
        (dateSkipZoneName rest).bind fun rest =>
          some (if negativeOffset then minutes.neg else minutes, rest)

/-- The end of `date_parse_own_format`: the weekday is that of the day. -/
def dateComposeOwn (weekday : ℕ) (year : ℤ) (month : ℕ) (day : ℤ) (time : ClockTime)
    (offsetMinutes : Number) : Option Number :=
  match dateMakeDay (ofInt year) (ofInt month) (ofInt day) with
  | .nan => none
  | dayNumber =>
    if toInt64 (dateModulo (dayNumber.add (ofInt 4)) (ofInt 7)) ≠ weekday then none
    else some (dateCompose dayNumber time offsetMinutes)

/-- `date_parse_own_format`. -/
def dateParseOwnFormat (units : List CodeUnit) : Option Number :=
  (dateNamedIndex dateWeekdayNames units).bind fun weekday =>
    let rest := units.drop 3
    let utcFormat := comesNext ',' rest
    (dateExpect ' ' (if utcFormat then rest.tail else rest)).bind fun rest =>
      (dateParseOwnDate utcFormat rest).bind fun ((month, day), rest) =>
        (dateExpect ' ' rest).bind fun rest =>
          (dateParseOwnYear rest).bind fun (year, rest) =>
            (dateExpect ' ' rest).bind fun rest =>
              (dateParseOwnTime rest).bind fun (time, rest) =>
                (dateExpect ' ' rest).bind fun rest =>
                  (dateExpect 'G' rest).bind fun rest =>
                    (dateExpect 'M' rest).bind fun rest =>
                      (dateExpect 'T' rest).bind fun rest =>
                        (if utcFormat then some (ofInt 0, rest) else dateParseOwnZone rest).bind
                          fun (offsetMinutes, rest) =>
                            if !rest.isEmpty then none
                            else dateComposeOwn weekday year month day time offsetMinutes

/-- `date_parse_string`. -/
def dateParseString (units : List CodeUnit) : Number :=
  match dateParseIso units with
  | some timeValue => timeValue
  | none => (dateParseOwnFormat units).getD .nan

end Oseo.DateTime
