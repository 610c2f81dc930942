import Oseo.DateTime.ParseTheorems

/-!
# What Date.parse recovers

`Date.parse` recovers what the writers write (`dateParse_writers`). A day past the end of its
month, and what only the second parser lets through, wraps into the next components
(`dateParse_recovers_iff`).
-/

namespace Oseo.DateTime

open List
open Oseo.Library (Number toDigits_length_le toDigits_length_eq lt_pow_toDigits_length)
open Oseo.Library.Number (ofInt)
open Oseo.UriCoding (CodeUnit codeUnit)

variable {units : List CodeUnit} {n time : ℤ} {x : Number} {w : Written}

/-! ## Reading what was written -/

/-- A component that fits its field. -/
def fieldOf (size : ℕ) [NeZero size] (value : ℤ) : Fin size := Fin.ofNat size value.toNat

lemma fieldOf_val {size : ℕ} [NeZero size] {value : ℤ} (hnonneg : 0 ≤ value) (hlt : value < size) :
    ((fieldOf size value : ℕ) : ℤ) = value := by
  unfold fieldOf
  rw [Fin.val_ofNat, Nat.mod_eq_of_lt (by omega), Int.toNat_of_nonneg hnonneg]

lemma padded_fieldOf {width : ℕ} [NeZero (10 ^ width)] {value : ℤ} (hwidth : 0 < width)
    (hnonneg : 0 ≤ value) (hlt : value < 10 ^ width) :
    dateAppendPadded value width = digitUnits width (fieldOf (10 ^ width) value) := by
  have hval := fieldOf_val hnonneg (by exact_mod_cast hlt : value < ((10 ^ width : ℕ) : ℤ))
  rw [← dateAppendPadded_eq hwidth (fieldOf (10 ^ width) value).isLt, hval]

/-- The text of a year is a field of four digits, or of as many as the year has. -/
lemma dateAppendPadded_year (value : ℕ) : dateAppendPadded value 4 =
    digitUnits (max 4 (Nat.toDigits 10 value).length) value := by
  have hfits : value < 10 ^ max 4 (Nat.toDigits 10 value).length :=
    Nat.lt_of_lt_of_le (lt_pow_toDigits_length value)
      (Nat.pow_le_pow_right (by decide) (le_max_right _ _))
  rw [← dateAppendPadded_eq (by omega) hfits]
  unfold dateAppendPadded
  dsimp only
  rw [signedDecimal_natCast, length_map]
  congr 2
  omega

lemma dateAppendYear_eq (fields : DateFields) : dateAppendYear fields =
    (if fields.year < 0 then [codeUnit '-'] else []) ++
      digitUnits (max 4 (Nat.toDigits 10 fields.year.natAbs).length) fields.year.natAbs := by
  have habs : (if fields.year < 0 then -fields.year else fields.year) = fields.year.natAbs := by
    split <;> omega
  unfold dateAppendYear
  rw [habs, dateAppendPadded_year]
  rfl

/-- A year stands as the writers write it when it is canonical. -/
lemma OwnYear.units_iff (year : OwnYear) {fields : DateFields} (hyear : fields.year = year.value) :
    year.units = dateAppendYear fields ↔ year.Canonical := by
  have hleast := year.least
  have hnatAbs : fields.year.natAbs = year.digits := by
    rw [hyear]
    unfold OwnYear.value
    split <;> omega
  have hnegative : fields.year < 0 ↔ year.negative = true ∧ year.digits ≠ 0 := by
    rw [hyear]
    unfold OwnYear.value
    split
    · next hsign =>
      exact ⟨fun hlt => ⟨hsign, by omega⟩, fun h => by omega⟩
    · next hsign =>
      refine ⟨fun hlt => absurd hlt (by omega), fun h => absurd h.1 hsign⟩
  rw [dateAppendYear_eq, hnatAbs]
  constructor
  · intro heq
    have hlength := congrArg length heq
    unfold OwnYear.units at hlength
    rw [length_append, length_append, digitUnits_length, digitUnits_length] at hlength
    have hzero : year.digits = 0 → (Nat.toDigits 10 year.digits).length = 1 := by
      intro h
      rw [h]
      rfl
    -- the sign is the same, or the lengths could not agree
    have hsign : year.negative = true → year.digits ≠ 0 := by
      intro hsign hdigits
      rw [if_pos hsign, if_neg (by rw [hnegative]; tauto), hzero hdigits, length_singleton,
        length_nil] at hlength
      omega
    refine ⟨hsign, ?_⟩
    have hwidth : year.width = max 4 (Nat.toDigits 10 year.digits).length := by
      by_cases h : year.negative = true
      · rw [if_pos h, if_pos (hnegative.mpr ⟨h, hsign h⟩)] at hlength
        omega
      · rw [if_neg h, if_neg (by rw [hnegative]; tauto)] at hlength
        omega
    by_contra hcontra
    have hshort : (Nat.toDigits 10 year.digits).length ≤ year.width - 1 :=
      toDigits_length_le (by omega) (by omega)
    omega
  · rintro ⟨hsign, hzeros⟩
    have hwidth : max 4 (Nat.toDigits 10 year.digits).length = year.width := by
      rcases hzeros with hfour | hlead
      · have hfits := year.fits
        rw [hfour] at hfits ⊢
        exact max_eq_left (toDigits_length_le (by decide) hfits)
      · have hfits := year.fits
        obtain ⟨width, hwidth⟩ : ∃ width, year.width = width + 1 := ⟨year.width - 1, by omega⟩
        rw [hwidth] at hfits hlead ⊢
        rw [Nat.add_sub_cancel] at hlead
        rw [toDigits_length_eq hlead hfits]
        omega
    rw [hwidth]
    unfold OwnYear.units
    congr 1
    by_cases h : year.negative = true
    · rw [if_pos h, if_pos (hnegative.mpr ⟨h, hsign h⟩)]
    · rw [if_neg h, if_neg (by rw [hnegative]; tauto)]

/-! ## The writers' formats -/

lemma dateUtcText_eq (fields : DateFields) : dateUtcText fields =
    ownDateUnits true (dateName dateWeekdayNames fields.weekday)
        (dateName dateMonthNames fields.month) (dateAppendPadded fields.day 2)
        (dateAppendYear fields) ++
      codeUnit ' ' :: (ownTimeUnits (dateAppendPadded fields.hour 2)
        (dateAppendPadded fields.minute 2) (dateAppendPadded fields.second 2) ++ []) := by
  unfold dateUtcText ownDateUnits ownTimeUnits dateAppendTimeString
  rw [if_pos rfl]
  simp only [append_assoc, cons_append, append_nil]
  rfl

lemma dateOwnText_eq (fields : DateFields) (zone : List CodeUnit) :
    dateAppendDateString fields ++ asciiUnits " " ++ dateAppendTimeString fields ++ zone =
    ownDateUnits false (dateName dateWeekdayNames fields.weekday)
        (dateName dateMonthNames fields.month) (dateAppendPadded fields.day 2)
        (dateAppendYear fields) ++
      codeUnit ' ' :: (ownTimeUnits (dateAppendPadded fields.hour 2)
        (dateAppendPadded fields.minute 2) (dateAppendPadded fields.second 2) ++ zone) := by
  unfold dateAppendDateString ownDateUnits ownTimeUnits dateAppendTimeString
  rw [if_neg (by decide)]
  simp only [append_assoc, cons_append]
  rfl

lemma ownDateUnits_inj {utcFormat : Bool} {weekday month day year year' rest : List CodeUnit} :
    ownDateUnits utcFormat weekday month day year ++ rest =
      ownDateUnits utcFormat weekday month day year' ++ rest ↔ year = year' := by
  rw [append_left_inj]
  unfold ownDateUnits
  cases utcFormat
  · rw [if_neg (by decide), if_neg (by decide)]
    simp only [append_cancel_left_eq, cons.injEq, true_and]
  · rw [if_pos rfl, if_pos rfl]
    simp only [append_cancel_left_eq, cons.injEq, true_and]

/-- The fields of a time whose components stand in a text. -/
lemma OwnText.fields_eq {text : OwnText} (hdenotes : text.written.Denotes time)
    (hweekday : (time / msPerDay + 4) % 7 = (text.weekday : ℕ)) :
    fieldsOf time = ⟨text.year.value, (text.month : ℕ), (text.day : ℕ), (text.weekday : ℕ),
      (text.hour : ℕ), (text.minute : ℕ), (text.second : ℕ), 0⟩ := by
  obtain ⟨hdate, hclock⟩ := hdenotes
  unfold fieldsOf
  rw [hdate, hclock, hweekday]
  unfold OwnText.written
  rw [add_sub_cancel_right]

/-- A text of this realm with the components of a time is what the writers write of it when its
year is canonical. -/
lemma OwnText.writtenFor_iff {text : OwnText} (hdenotes : text.written.Denotes time)
    (hweekday : (time / msPerDay + 4) % 7 = (text.weekday : ℕ)) :
    text.WrittenFor time ↔ text.year.Canonical := by
  have hfields := text.fields_eq hdenotes hweekday
  have padded_two : ∀ value : Fin 100, dateAppendPadded ((value : ℕ) : ℤ) 2 = digitUnits 2 value :=
    fun value => dateAppendPadded_eq (by decide) value.isLt
  have hyear := text.year.units_iff (congrArg DateFields.year hfields)
  unfold OwnText.WrittenFor OwnText.units
  rw [dateUtcText_eq, dateOwnText_eq, ← hyear]
  generalize hwritten : dateAppendYear (fieldsOf time) = written
  rw [hfields]
  rw [padded_two, padded_two, padded_two, padded_two]
  cases text.zone with
  | utc => exact ownDateUnits_inj
  | zone negative hour minute name => exact ownDateUnits_inj

/-! ## The round trip -/

/-- A local time is that of its components. -/
lemma localTime_of_denotes (h : w.Denotes time) : w.localTime = time := by
  obtain ⟨hdate, hclock⟩ := h
  unfold Written.localTime
  rw [written_days, ← hdate, ← hclock]
  unfold civilDate clockTime ClockTime.total
  rw [days_dateCivilFromDays]
  dsimp only
  unfold msPerDay msPerHour msPerMinute msPerSecond
  omega

/-- A year of six digits or fewer, as the second parser takes it. -/
def ownYearOf (year : ℤ) (h : |year| ≤ 999999) : OwnYear where
  negative := decide (year < 0)
  width := max 4 (Nat.toDigits 10 year.natAbs).length
  digits := year.natAbs
  least := le_max_left _ _
  most := max_le (by decide) (toDigits_length_le (by decide) (by rw [abs_le] at h; omega))
  fits := Nat.lt_of_lt_of_le (lt_pow_toDigits_length _)
    (Nat.pow_le_pow_right (by decide) (le_max_right _ _))

lemma ownYearOf_value {year : ℤ} (h : |year| ≤ 999999) : (ownYearOf year h).value = year := by
  unfold OwnYear.value ownYearOf
  dsimp only
  split
  · next hneg =>
    rw [decide_eq_true_iff] at hneg
    omega
  · next hpos =>
    rw [decide_eq_true_iff] at hpos
    omega

lemma ownYearOf_units {year : ℤ} (h : |year| ≤ 999999) {fields : DateFields}
    (hyear : fields.year = year) : (ownYearOf year h).units = dateAppendYear fields := by
  rw [dateAppendYear_eq, hyear]
  unfold OwnYear.units ownYearOf
  dsimp only
  by_cases hneg : year < 0
  · rw [if_pos hneg, decide_eq_true hneg, if_pos rfl]
  · rw [if_neg hneg, decide_eq_false hneg, if_neg (by decide)]

/-- The year of the other format. -/
def isoYearOf (year : ℤ) : IsoYear :=
  if 0 ≤ year ∧ year ≤ 9999 then .basic (fieldOf (10 ^ 4) year)
  else .expanded (decide (year < 0)) (fieldOf (10 ^ 6) |year|)

lemma isoYearOf_eq {year : ℤ} (h : |year| ≤ 999999) :
    (isoYearOf year).units = dateIsoYear year ∧ (isoYearOf year).value = year ∧
      (isoYearOf year).Checked := by
  unfold isoYearOf dateIsoYear
  split
  · next hfour =>
    rw [if_neg (by omega), if_neg (by omega)]
    exact ⟨(padded_fieldOf (by decide) hfour.1 (by omega)).symm,
      fieldOf_val hfour.1 (by omega), trivial⟩
  · next hsix =>
    have hval : ((fieldOf (10 ^ 6) |year| : ℕ) : ℤ) = |year| :=
      fieldOf_val (abs_nonneg year) (by omega)
    have hunits : dateAppendPadded |year| 6 = digitUnits 6 (fieldOf (10 ^ 6) |year|) :=
      padded_fieldOf (by decide) (abs_nonneg year) (by omega)
    unfold IsoYear.units IsoYear.value IsoYear.Checked
    dsimp only
    by_cases hneg : year < 0
    · have habs : |year| = -year := abs_of_neg hneg
      rw [if_pos hneg, decide_eq_true hneg, if_pos rfl, hval, ← hunits, habs, neg_neg]
      refine ⟨rfl, rfl, fun _ hzero => ?_⟩
      rw [habs, hzero] at hval
      omega
    · have habs : |year| = year := abs_of_nonneg (by omega)
      rw [if_neg hneg, decide_eq_false hneg, if_pos (by omega), if_neg (by decide), hval, ← hunits,
        habs]
      exact ⟨rfl, rfl, fun hcontra => absurd hcontra (by decide)⟩

/-- A time value has a year of six digits. -/
lemma civilDate_year (ht : TimeValue n) : |(civilDate n).year| ≤ 999999 := by
  have hvalid := dateCivilFromDays_valid (n / msPerDay)
  have hdays := days_dateCivilFromDays (n / msPerDay)
  have hinEra := hvalid.inEra.day_le
  have hinEra' := hvalid.inEra.day_nonneg
  have hmarch := marchYear_cases (dateCivilFromDays (n / msPerDay))
  unfold civilDate
  rw [days_eq hvalid.month_pos] at hdays
  unfold TimeValue at ht
  unfold msPerDay at *
  rw [abs_le] at ht ⊢
  omega

/-- What `toISOString` writes, taken apart. -/
def isoTextOf (time : ℤ) : IsoText where
  year := isoYearOf (civilDate time).year
  date := .toDay (fieldOf 100 (civilDate time).month) (fieldOf 100 (civilDate time).day)
  time := some
    { hour := fieldOf 100 (clockTime time).hour
      minute := fieldOf 100 (clockTime time).minute
      seconds := .toMillisecond (fieldOf 100 (clockTime time).second)
        (fieldOf 1000 (clockTime time).millisecond)
      offset := .utc }

/-- What the other writers write, taken apart; the milliseconds are left out. -/
def ownTextOf (time : ℤ) (ht : TimeValue time) (zone : OwnZone) : OwnText where
  weekday := fieldOf 7 ((time / msPerDay + 4) % 7)
  month := fieldOf 12 ((civilDate time).month - 1)
  day := fieldOf 100 (civilDate time).day
  year := ownYearOf (civilDate time).year (civilDate_year ht)
  hour := fieldOf 100 (clockTime time).hour
  minute := fieldOf 100 (clockTime time).minute
  second := fieldOf 100 (clockTime time).second
  zone := zone

lemma day_le_31 {date : CivilDate} (h : date.Valid) : date.day ≤ 31 := by
  have hlast := h.day_le
  have hlength : daysInMonth date.year date.month ≤ 31 := by
    unfold daysInMonth
    split_ifs <;> decide
  omega

/-- The month and the day of a day number. -/
lemma civilDate_range (n : ℤ) : 1 ≤ (civilDate n).month ∧ (civilDate n).month ≤ 12 ∧
    1 ≤ (civilDate n).day ∧ (civilDate n).day ≤ 31 := by
  have hvalid : (civilDate n).Valid := dateCivilFromDays_valid _
  have hday := day_le_31 hvalid
  obtain ⟨hmonth, hmonth', hday', -⟩ := hvalid
  exact ⟨hmonth, hmonth', hday', hday⟩

lemma padded_two (value : ℤ) (hnonneg : 0 ≤ value) (hlt : value < 100) :
    dateAppendPadded value 2 = digitUnits 2 (fieldOf 100 value) :=
  padded_fieldOf (by decide) hnonneg (by omega)

section
variable (ht : TimeValue n)
include ht

lemma isoTextOf_written : (isoTextOf n).written = ⟨civilDate n, clockTime n, 0⟩ := by
  obtain ⟨hmonth, hmonth', hday', hday⟩ := civilDate_range n
  obtain ⟨hhour, hhour', hminute, hminute', hsecond, hsecond', hmilli, hmilli'⟩ := clockTime_valid n
  have hyear := (isoYearOf_eq (civilDate_year ht)).2.1
  unfold IsoText.written isoTextOf IsoDate.month IsoDate.day IsoTime.clock IsoSeconds.second
    IsoSeconds.millisecond
  dsimp only
  rw [hyear, fieldOf_val (by omega) (by omega), fieldOf_val (by omega) (by omega),
    fieldOf_val (by omega) (by omega), fieldOf_val (by omega) (by omega),
    fieldOf_val (by omega) (by omega), fieldOf_val (by omega) (by omega)]
  rfl

lemma isoTextOf_checked : (isoTextOf n).Checked := by
  have hwritten := isoTextOf_written ht
  obtain ⟨hmonth, hmonth', hday', hday⟩ := civilDate_range n
  obtain ⟨hhour, hhour', hminute, hminute', hsecond, hsecond', hmilli, hmilli'⟩ := clockTime_valid n
  have hdate : (isoTextOf n).written.date = civilDate n := congrArg Written.date hwritten
  refine ⟨(isoYearOf_eq (civilDate_year ht)).2.2, ?_, ?_, ?_⟩
  · unfold IsoDate.Checked
    have hmonths : (isoTextOf n).date.month = (civilDate n).month := congrArg CivilDate.month hdate
    have hdays : (isoTextOf n).date.day = (civilDate n).day := congrArg CivilDate.day hdate
    rw [hmonths, hdays]
    omega
  · rw [hwritten]
    refine ⟨?_, ?_, ?_, fun hcontra => ?_⟩ <;> dsimp only at * <;> omega
  · intro time htime
    cases htime
    trivial

/-- The text of `toISOString`. -/
lemma dateToIsoString_eq (hx : x.Is n) :
    dateToIsoString x = .ok (isoTextOf n).units := by
  obtain ⟨hmonth, hmonth', hday', hday⟩ := civilDate_range n
  obtain ⟨hhour, hhour', hminute, hminute', hsecond, hsecond', hmilli, hmilli'⟩ := clockTime_valid n
  have hyear := (isoYearOf_eq (civilDate_year ht)).1
  have hfields := dateFields_eq ht hx
  have hthree : ∀ value : ℤ, 0 ≤ value → value < 1000 →
      dateAppendPadded value 3 = digitUnits 3 (fieldOf 1000 value) :=
    fun value hnonneg hlt => padded_fieldOf (by decide) hnonneg (by omega)
  have hlength : (isoTextOf n).units.length ≤ 128 := by
    have hyears : (isoYearOf (civilDate n).year).units.length ≤ 7 := by
      cases isoYearOf (civilDate n).year with
      | basic year => exact (digitUnits_length 4 year).le.trans (by decide)
      | expanded negative year => exact (congrArg (· + 1) (digitUnits_length 6 year)).le
    unfold IsoText.units IsoText.timeUnits isoTextOf IsoDate.units IsoTime.clockUnits
      IsoSeconds.units IsoOffset.units
    simp only [length_append, length_cons, digitUnits_length, length_nil]
    omega
  obtain ⟨a, rfl, -⟩ := id hx
  unfold dateToIsoString
  rw [hfields]
  unfold fieldsOf
  dsimp only
  rw [sub_add_cancel, padded_two _ (by omega) (by omega), padded_two _ (by omega) (by omega),
    padded_two _ hhour (by omega), padded_two _ hminute (by omega), padded_two _ hsecond (by omega),
    hthree _ hmilli hmilli', ← hyear]
  unfold IsoText.units IsoText.timeUnits isoTextOf IsoDate.units IsoTime.clockUnits
    IsoSeconds.units IsoOffset.units at hlength ⊢
  simp only [append_assoc, cons_append] at hlength ⊢
  exact if_neg (Nat.not_lt.mpr hlength)

/-- The shape of the two texts of this realm, with the components of a time value. -/
lemma ownTextOf_units (zone : OwnZone) : (ownTextOf n ht zone).units =
    ownDateUnits zone.isUtc (dateName dateWeekdayNames (fieldsOf n).weekday)
        (dateName dateMonthNames (fieldsOf n).month) (dateAppendPadded (fieldsOf n).day 2)
        (dateAppendYear (fieldsOf n)) ++
      codeUnit ' ' :: (ownTimeUnits (dateAppendPadded (fieldsOf n).hour 2)
        (dateAppendPadded (fieldsOf n).minute 2) (dateAppendPadded (fieldsOf n).second 2) ++
          zone.units) := by
  obtain ⟨hmonth, hmonth', hday', hday⟩ := civilDate_range n
  obtain ⟨hhour, hhour', hminute, hminute', hsecond, hsecond', -, -⟩ := clockTime_valid n
  have hyear : (ownTextOf n ht zone).year.units = dateAppendYear (fieldsOf n) :=
    ownYearOf_units (civilDate_year ht) rfl
  have hweekdays : ((fieldOf 7 ((n / msPerDay + 4) % 7) : ℕ) : ℤ) = (n / msPerDay + 4) % 7 :=
    fieldOf_val (Int.emod_nonneg _ (by decide)) (Int.emod_lt_of_pos _ (by decide))
  have hmonths : ((fieldOf 12 ((civilDate n).month - 1) : ℕ) : ℤ) = (civilDate n).month - 1 :=
    fieldOf_val (by omega) (by omega)
  unfold OwnText.units
  rw [hyear]
  unfold ownTextOf fieldsOf
  dsimp only
  rw [padded_two _ (by omega) (by omega), padded_two _ hhour (by omega), padded_two _ hminute (by omega),
    padded_two _ hsecond (by omega), hweekdays, hmonths]

lemma ownTextOf_length (zone : OwnZone) :
    (ownTextOf n ht zone).units.length ≤ 40 + zone.units.length := by
  have hyear : (ownTextOf n ht zone).year.units.length ≤ 7 := by
    have hmost := (ownTextOf n ht zone).year.most
    unfold OwnYear.units
    rw [length_append, digitUnits_length]
    split
    · rw [length_singleton]
      omega
    · rw [length_nil]
      omega
  have hweekday : ∀ index : Fin 7, (dateName dateWeekdayNames (index : ℕ)).length = 3 := by decide
  have hmonth : ∀ index : Fin 12, (dateName dateMonthNames (index : ℕ)).length = 3 := by decide
  have hgmt : (asciiUnits " GMT").length = 4 := by decide
  have hzone : (ownTextOf n ht zone).zone = zone := rfl
  unfold OwnText.units ownDateUnits ownTimeUnits
  rw [hzone]
  split <;> simp only [length_append, length_cons, digitUnits_length, hweekday, hmonth,
    hgmt] <;> omega

/-- What stands in the text is the time value down to its seconds. -/
lemma ownTextOf_time {zone : OwnZone} (hoffset : zone.value = 0) :
    (ownTextOf n ht zone).written.days = n / msPerDay ∧
      (ownTextOf n ht zone).written.time = n / msPerSecond * msPerSecond := by
  obtain ⟨hmonth, hmonth', hday', hday⟩ := civilDate_range n
  obtain ⟨hhour, hhour', hminute, hminute', hsecond, hsecond', -, -⟩ := clockTime_valid n
  have hyear : (ownTextOf n ht zone).year.value = (civilDate n).year :=
    ownYearOf_value (civilDate_year ht)
  have hwritten : (ownTextOf n ht zone).written =
      ⟨civilDate n, ⟨(clockTime n).hour, (clockTime n).minute, (clockTime n).second, 0⟩, 0⟩ := by
    unfold OwnText.written
    rw [hyear]
    unfold ownTextOf
    rw [hoffset, fieldOf_val (by omega) (by omega), fieldOf_val (by omega) (by omega),
      fieldOf_val hhour (by omega), fieldOf_val hminute (by omega), fieldOf_val hsecond (by omega),
      sub_add_cancel]
  have hdays : (ownTextOf n ht zone).written.days = n / msPerDay := by
    rw [written_days, hwritten]
    exact days_dateCivilFromDays _
  refine ⟨hdays, ?_⟩
  unfold Written.time Written.localTime
  rw [hdays, hwritten]
  unfold ClockTime.total clockTime msPerDay msPerHour msPerMinute msPerSecond
  dsimp only
  omega

/-- A text of this realm without an offset is parsed as the time value it was written for, down to
its seconds. -/
lemma dateParseString_ownTextOf {zone : OwnZone} (hchecked : zone.Checked)
    (hoffset : zone.value = 0) :
    (dateParseString (ownTextOf n ht zone).units).Is ((n / msPerSecond * msPerSecond : ℤ) : ℚ) := by
  obtain ⟨hhour, hhour', hminute, hminute', hsecond, hsecond', -, -⟩ := clockTime_valid n
  obtain ⟨hdays, htime⟩ := ownTextOf_time ht hoffset
  have hhours : ((fieldOf 100 (clockTime n).hour : ℕ) : ℤ) = (clockTime n).hour :=
    fieldOf_val hhour (by omega)
  have hminutes : ((fieldOf 100 (clockTime n).minute : ℕ) : ℤ) = (clockTime n).minute :=
    fieldOf_val hminute (by omega)
  have hseconds : ((fieldOf 100 (clockTime n).second : ℕ) : ℤ) = (clockTime n).second :=
    fieldOf_val hsecond (by omega)
  have hweekdays : ((fieldOf 7 ((n / msPerDay + 4) % 7) : ℕ) : ℤ) = (n / msPerDay + 4) % 7 :=
    fieldOf_val (Int.emod_nonneg _ (by decide)) (Int.emod_lt_of_pos _ (by decide))
  apply (dateParseString_own _).mpr
  refine ⟨⟨?_, ?_, ?_, hchecked, ?_⟩, ?_, htime.symm⟩
  · show (fieldOf 100 (clockTime n).hour : ℕ) ≤ 24
    omega
  · show (fieldOf 100 (clockTime n).minute : ℕ) ≤ 59
    omega
  · show (fieldOf 100 (clockTime n).second : ℕ) ≤ 59
    omega
  · rw [hdays]
    exact hweekdays.symm
  · rw [htime]
    unfold TimeValue msPerSecond at *
    rw [abs_le] at ht ⊢
    omega

end

/-- The end of what `toString` writes. -/
def localZone : OwnZone := .zone false 0 0 (some (asciiUnits "Coordinated Universal Time"))

lemma localZone_units : localZone.units = dateAppendTimeZoneString := by decide

lemma dateToDateString_eq (ht : TimeValue n) (hx : x.Is n) :
    dateToDateString x .toString = .ok (ownTextOf n ht localZone).units := by
  have hlength := ownTextOf_length ht localZone
  have hzone : localZone.units.length = 34 := by decide
  have hlocal := (dateLocalTime_of_is ht hx).1
  have hfields := dateFields_eq ht hx
  obtain ⟨a, rfl, -⟩ := id hx
  unfold dateToDateString
  dsimp only
  rw [hlocal, hfields, if_pos (by decide), if_pos (by decide), if_pos (by decide),
    ← append_assoc, ← append_assoc, dateOwnText_eq, ← localZone_units]
  have hunits := ownTextOf_units ht localZone
  have hformat : localZone.isUtc = false := rfl
  rw [hformat] at hunits
  rw [← hunits]
  exact if_neg (by omega)

lemma dateToUtcString_eq (ht : TimeValue n) (hx : x.Is n) :
    dateToUtcString x = .ok (ownTextOf n ht .utc).units := by
  have hlength := ownTextOf_length ht .utc
  have hzone : OwnZone.utc.units.length = 0 := rfl
  have hfields := dateFields_eq ht hx
  obtain ⟨a, rfl, -⟩ := id hx
  unfold dateToUtcString
  have hunits : (ownTextOf n ht .utc).units = dateUtcText (fieldsOf n) := by
    rw [ownTextOf_units, dateUtcText_eq]
    rfl
  rw [hfields, ← hunits]
  exact if_neg (by omega)

/-- Every time value is parsed from what `toISOString` writes of it, and its seconds from what
`toString` and `toUTCString` write. -/
theorem dateParse_writers (ht : TimeValue n) (hx : x.Is n) :
    (∃ text, dateToIsoString x = .ok text ∧ (dateParseString text).Is n) ∧
    (∃ text, dateToDateString x .toString = .ok text ∧
      (dateParseString text).Is ((n / msPerSecond * msPerSecond : ℤ) : ℚ)) ∧
    (∃ text, dateToUtcString x = .ok text ∧
      (dateParseString text).Is ((n / msPerSecond * msPerSecond : ℤ) : ℚ)) := by
  refine ⟨⟨_, dateToIsoString_eq ht hx, ?_⟩, ⟨_, dateToDateString_eq ht hx, ?_⟩,
    _, dateToUtcString_eq ht hx, ?_⟩
  · have hwritten := isoTextOf_written ht
    have htime : (isoTextOf n).written.time = n := by
      have hlocal : Written.localTime ⟨civilDate n, clockTime n, 0⟩ = n :=
        localTime_of_denotes ⟨rfl, rfl⟩
      unfold Written.time
      rw [hwritten, hlocal, zero_mul, sub_zero]
    apply (dateParseString_iso _).mpr
    rw [htime]
    exact ⟨isoTextOf_checked ht, ht, rfl⟩
  · exact dateParseString_ownTextOf ht (by decide) rfl
  · exact dateParseString_ownTextOf ht trivial rfl

/-- The last millisecond before 1970. -/
theorem dateParse_writers_before1970 :
    (∃ text, dateToIsoString (ofInt (-1)) = .ok text ∧ (dateParseString text).Is ((-1 : ℤ) : ℚ)) ∧
    (∃ text, dateToDateString (ofInt (-1)) .toString = .ok text ∧
      (dateParseString text).Is ((-1000 : ℤ) : ℚ)) ∧
    (∃ text, dateToUtcString (ofInt (-1)) = .ok text ∧
      (dateParseString text).Is ((-1000 : ℤ) : ℚ)) :=
  dateParse_writers (by decide) (is_ofInt (by decide))

/-! ## What is not recovered -/

/-- The same date at its start. -/
def Written.startOfDay (written : Written) : Written := { written with clock := ⟨0, 0, 0, 0⟩ }

/-- The components of a text are in their ranges. -/
structure IsoText.InRange (text : IsoText) : Prop where
  year : text.year.Checked
  date : text.written.date.Valid
  clock : text.written.clock.Valid ∨ text.written.clock = endOfDay
  offset : ∀ time, text.time = some time → time.offset.Checked

structure OwnText.InRange (text : OwnText) : Prop where
  date : text.written.date.Valid
  clock : text.written.clock.Valid
  offset : text.zone.Checked

/-- The components of a text are in their ranges, and a local time has them; of a text of this realm
it is one that the writers write so. -/
structure Recovered (units : List CodeUnit) (time : ℤ) : Prop where
  iso : ∀ text : IsoText, units = text.units → text.InRange ∧
    (text.written.Denotes (time + text.written.offset * msPerMinute) ∨
      text.written.clock = endOfDay ∧ text.written.startOfDay.Denotes
        (time + text.written.offset * msPerMinute - msPerDay))
  own : ∀ text : OwnText, units = text.units → text.InRange ∧
    text.written.Denotes (time + text.written.offset * msPerMinute) ∧
    text.WrittenFor (time + text.written.offset * msPerMinute)
  read : (∃ text : IsoText, units = text.units) ∨ ∃ text : OwnText, units = text.units

/-- The day is one of its month, and in a text of this realm the hour is one of a day and the year
is written as the writers write it. -/
structure Unwrapped (units : List CodeUnit) : Prop where
  iso : ∀ text : IsoText, units = text.units →
    text.date.day ≤ daysInMonth text.year.value text.date.month
  own : ∀ text : OwnText, units = text.units →
    1 ≤ (text.day : ℕ) ∧ ((text.day : ℕ) : ℤ) ≤ daysInMonth text.year.value ((text.month : ℕ) + 1) ∧
      (text.hour : ℕ) ≤ 23 ∧ text.year.Canonical

/-- Every text has a time value or none. -/
lemma dateParseString_number (units : List CodeUnit) : dateParseString units = .nan ∨
    ∃ n, TimeValue n ∧ (dateParseString units).Is ((n : ℤ) : ℚ) := by
  cases hiso : dateParseIso units with
  | some result =>
    obtain ⟨text, rfl⟩ := dateParseIso_some hiso
    obtain ⟨hvalue, hnan⟩ := dateParseString_checked (dateParseIso_checked hiso)
    by_cases htime : TimeValue text.written.time
    · exact .inr ⟨_, htime, hvalue htime⟩
    · exact .inl (hnan htime)
  | none =>
    cases hown : dateParseOwnFormat units with
    | some result =>
      obtain ⟨text, rfl⟩ := dateParseOwnFormat_some hown
      obtain ⟨hvalue, hnan⟩ := dateParseString_rangeChecked (dateParseOwnFormat_checked hown)
      by_cases htime : TimeValue text.written.time ∧
          (text.written.days + 4) % 7 = (text.weekday : ℕ)
      · exact .inr ⟨_, htime.1, hvalue htime⟩
      · exact .inl (hnan htime)
    | none =>
      left
      unfold dateParseString
      rw [hiso, hown]
      rfl

lemma time_add_offset (written : Written) :
    written.time + written.offset * msPerMinute = written.localTime := by
  unfold Written.time
  omega

lemma days_of_denotes (h : w.Denotes time) : w.days = time / msPerDay := by
  rw [written_days, ← h.1]
  exact days_dateCivilFromDays _

/-- A clock time that passed the checks is one of a day, or its end. -/
lemma ClockTime.Checked.cases {text : IsoText} (h : text.Checked) :
    text.written.clock.Valid ∨ text.written.clock = endOfDay := by
  obtain ⟨-, -, -, -, -, hhour, -, hminute, -, hsecond, -, hmilli, hmilli', -⟩ := h.bounded
  obtain ⟨hhour', hminute', hsecond', hend⟩ := h.clock
  by_cases hlast : text.written.clock.hour = 24
  · exact .inr (hend hlast)
  · exact .inl ⟨hhour, by omega, hminute, by omega, hsecond, by omega, hmilli, by omega⟩

/-- A text of the Date Time String Format is recovered when its day is one of its month. -/
lemma IsoText.recovered {text : IsoText} (h : text.Checked)
    (hday : text.date.day ≤ daysInMonth text.year.value text.date.month) :
    text.InRange ∧ (text.written.Denotes text.written.localTime ∨
      text.written.clock = endOfDay ∧
        text.written.startOfDay.Denotes (text.written.localTime - msPerDay)) := by
  have hvalid : text.written.date.Valid := ⟨h.date.1, h.date.2.1, h.date.2.2.1, hday⟩
  have hclock := ClockTime.Checked.cases h
  refine ⟨⟨h.year, hvalid, hclock, h.offset⟩, ?_⟩
  rcases hclock with hclock | hend
  · exact .inl ((denotes_iff _).mpr ⟨hvalid, hclock⟩)
  · right
    have hstart : text.written.startOfDay.localTime = text.written.localTime - msPerDay := by
      unfold Written.localTime Written.startOfDay
      rw [hend]
      have htotals : ClockTime.total ⟨0, 0, 0, 0⟩ = endOfDay.total - msPerDay := by decide
      rw [htotals]
      exact (add_sub_assoc _ _ _).symm
    rw [← hstart]
    refine ⟨hend, (denotes_iff _).mpr ⟨hvalid, ?_⟩⟩
    exact clockTime_valid 0

/-- What a text that is accepted stands for is what was written exactly when nothing wraps. -/
theorem dateParse_recovers_iff (h : dateParseString units ≠ .nan) :
    ∃ n, TimeValue n ∧ (dateParseString units).Is ((n : ℤ) : ℚ) ∧
      (Recovered units n ↔ Unwrapped units) := by
  obtain ⟨n, htime, his⟩ := (dateParseString_number units).resolve_left h
  refine ⟨n, htime, his, fun hrecovered => ⟨?_, ?_⟩, fun hunwrapped => ⟨?_, ?_, ?_⟩⟩
  · intro text hunits
    exact (hrecovered.iso text hunits).1.date.day_le
  · intro text hunits
    obtain ⟨hrange, hdenotes, hwritten⟩ := hrecovered.own text hunits
    rw [hunits, dateParseString_own] at his
    have hweekday := his.1.weekday
    rw [days_of_denotes hdenotes] at hweekday
    have hpos := hrange.date.day_pos
    have hhour := hrange.clock.hour_lt
    unfold OwnText.written at hpos hhour
    dsimp only at hpos hhour
    exact ⟨by omega, hrange.date.day_le, by omega,
      (text.writtenFor_iff hdenotes hweekday).mp hwritten⟩
  · intro text hunits
    rw [hunits, dateParseString_iso] at his
    rw [his.2.2, time_add_offset]
    exact text.recovered his.1 (hunwrapped.iso text hunits)
  · intro text hunits
    obtain ⟨hpos, hday, hhour, hcanonical⟩ := hunwrapped.own text hunits
    rw [hunits, dateParseString_own] at his
    obtain ⟨hchecked, -, rfl⟩ := his
    have hminute := hchecked.minute
    have hsecond := hchecked.second
    have hvalid : text.written.date.Valid := by
      unfold OwnText.written
      exact ⟨by dsimp only; omega, by dsimp only; omega, by dsimp only; omega, hday⟩
    have hclock : text.written.clock.Valid := by
      unfold OwnText.written
      refine ⟨?_, ?_, ?_, ?_, ?_, ?_, ?_, ?_⟩ <;> dsimp only <;> omega
    have hdenotes := (denotes_iff text.written).mpr ⟨hvalid, hclock⟩
    have hweekday := hchecked.weekday
    rw [days_of_denotes hdenotes] at hweekday
    rw [time_add_offset]
    exact ⟨⟨hvalid, hclock, hchecked.zone⟩, hdenotes,
      (text.writtenFor_iff hdenotes hweekday).mpr hcanonical⟩
  · exact dateParseString_some his

/-- The first of March of 2020. -/
def firstOfMarch : IsoText := ⟨.basic 2020, .toDay 3 1, none⟩

/-- The day before it, counted on from the first of February. -/
def thirtiethOfFebruary : IsoText := ⟨.basic 2020, .toDay 2 30, none⟩

/-- An hour behind the last of the first day of 1970. -/
def hour24 : OwnText where
  weekday := 4
  month := 0
  day := 1
  year := ⟨false, 4, 1970, by decide, by decide, by decide⟩
  hour := 24
  minute := 30
  second := 0
  zone := .zone false 0 0 none

theorem dateParse_recovers_iff_march : ∃ n, TimeValue n ∧
    (dateParseString firstOfMarch.units).Is ((n : ℤ) : ℚ) ∧
      (Recovered firstOfMarch.units n ↔ Unwrapped firstOfMarch.units) := by
  apply dateParse_recovers_iff
  intro hnan
  have his := (@dateParseString_iso firstOfMarch.written.time firstOfMarch).mpr
    ⟨⟨trivial, by decide, by decide, fun _ h => by cases h⟩, by decide, rfl⟩
  rw [hnan] at his
  exact nan_not_is his

/-- A day past the end of its month, and a time past the end of its day. -/
theorem dateParse_wraps :
    (thirtiethOfFebruary.units = asciiUnits "2020-02-30" ∧
      (dateParseString thirtiethOfFebruary.units).Is ((1583020800000 : ℤ) : ℚ) ∧
      ¬Recovered thirtiethOfFebruary.units 1583020800000) ∧
    (hour24.units = asciiUnits "Thu Jan 01 1970 24:30:00 GMT+0000" ∧
      (dateParseString hour24.units).Is ((88200000 : ℤ) : ℚ) ∧
      ¬Recovered hour24.units 88200000) := by
  refine ⟨⟨by decide, ?_, fun hrecovered => ?_⟩, by decide, ?_, fun hrecovered => ?_⟩
  · exact (dateParseString_iso _).mpr ⟨⟨trivial, by decide, by decide, fun _ h => by cases h⟩,
      by decide, by decide⟩
  · have hday := (hrecovered.iso _ rfl).1.date.day_le
    exact absurd hday (by decide)
  · exact (dateParseString_own _).mpr ⟨⟨by decide, by decide, by decide, by decide, by decide⟩,
      by decide, by decide⟩
  · have hhour := (hrecovered.own _ rfl).1.clock.hour_lt
    exact absurd hhour (by decide)

end Oseo.DateTime
