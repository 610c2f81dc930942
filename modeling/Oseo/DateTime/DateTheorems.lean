import Oseo.DateTime.Dates
import Mathlib.Tactic.IntervalCases

/-!
# The civil date of a day number

The two functions are inverse to one another (`dateCivilFromDays_days`, `days_dateCivilFromDays`),
and consecutive days have consecutive dates (`dateCivilFromDays_succ`). The years of the
computation begin in March, so that the leap day is the last of them.
-/

namespace Oseo.DateTime

open Int

section

variable {date : CivilDate} {year month day days : ℤ}

/-! ## Divisions -/

/-- Truncation of what was moved down is the floor. -/
lemma tdiv_of_floor {size : ℤ} (value : ℤ) (h : 0 < size) :
    (if 0 ≤ value then value else value - (size - 1)).tdiv size = value / size := by
  split
  · exact tdiv_eq_ediv_of_nonneg ‹_›
  · have hquotient : (size - 1 - value) / size = -(value / size) := by
      have hdiv := mul_ediv_add_emod value size
      have hlow := emod_nonneg value h.ne'
      have hhigh := emod_lt_of_pos value h
      have hunique : size - 1 - value % size + size * -(value / size) = size - 1 - value := by
        rw [mul_neg]
        linarith
      exact ((Int.ediv_emod_unique h).mpr ⟨hunique, by omega, by omega⟩).1
    have hneg : value - (size - 1) = -(size - 1 - value) := by omega
    rw [hneg, Int.neg_tdiv, tdiv_eq_ediv_of_nonneg (by omega), hquotient, neg_neg]

/-! ## Years from March on -/

/-- The days before a year of an era of 400 years. -/
def daysBefore (yearOfEra : ℤ) : ℤ := yearOfEra * 365 + yearOfEra / 4 - yearOfEra / 100

/-- A year of an era and a day of it. -/
structure InEra (yearOfEra dayOfYear : ℤ) : Prop where
  year_nonneg : 0 ≤ yearOfEra
  year_lt : yearOfEra < 400
  day_nonneg : 0 ≤ dayOfYear
  day_le : dayOfYear ≤ 365
  leap : dayOfYear = 365 → yearOfEra % 4 = 3 ∧ (yearOfEra % 100 ≠ 99 ∨ yearOfEra = 399)

/-- The year of an era is found from the day of the era. -/
lemma yearOfEra_eq {yearOfEra dayOfYear dayOfEra : ℤ} (h : InEra yearOfEra dayOfYear)
    (hday : daysBefore yearOfEra + dayOfYear = dayOfEra) :
    (dayOfEra - dayOfEra / 1460 + dayOfEra / 36524 - dayOfEra / 146096) / 365 = yearOfEra := by
  obtain ⟨hyear, hyear', hnonneg, hle, hleap⟩ := h
  unfold daysBefore at hday
  have hcenturies : yearOfEra / 100 = 0 ∨ yearOfEra / 100 = 1 ∨ yearOfEra / 100 = 2 ∨
      yearOfEra / 100 = 3 := by omega
  -- each quotient counts years, but for the last day of the era
  have hcentury : dayOfEra / 36524 = yearOfEra / 100 ∨ (yearOfEra = 399 ∧ dayOfYear = 365) := by
    rcases hcenturies with hc | hc | hc | hc <;> rw [hc] at hday ⊢ <;> omega
  have hera : dayOfEra / 146096 = 0 ∨ (yearOfEra = 399 ∧ dayOfYear = 365) := by omega
  rcases hcentury with hcentury | ⟨rfl, rfl⟩
  · rcases hera with hera | ⟨rfl, rfl⟩
    · rw [hcentury, hera]
      omega
    · omega
  · omega

/-- The day of an era is below the length of an era. -/
lemma dayOfEra_lt {yearOfEra dayOfYear : ℤ} (h : InEra yearOfEra dayOfYear) :
    0 ≤ daysBefore yearOfEra + dayOfYear ∧ daysBefore yearOfEra + dayOfYear < 146097 := by
  obtain ⟨hyear, hyear', hnonneg, hle, hleap⟩ := h
  unfold daysBefore
  have hcenturies : yearOfEra / 100 = 0 ∨ yearOfEra / 100 = 1 ∨ yearOfEra / 100 = 2 ∨
      yearOfEra / 100 = 3 := by omega
  rcases hcenturies with hc | hc | hc | hc <;> rw [hc] <;> omega

/-! ## The two functions -/

/-- The year a date belongs to when the years begin in March. -/
def CivilDate.marchYear (date : CivilDate) : ℤ := date.year - if date.month ≤ 2 then 1 else 0

/-- The month counted from March. -/
def CivilDate.marchMonth (date : CivilDate) : ℤ :=
  if 2 < date.month then date.month - 3 else date.month + 9

/-- The day of the year that began in March. -/
def CivilDate.dayOfYear (date : CivilDate) : ℤ := (153 * date.marchMonth + 2) / 5 + date.day - 1

lemma CivilDate.marchMonth_nonneg (h : 1 ≤ date.month) : 0 ≤ date.marchMonth := by
  unfold CivilDate.marchMonth
  split <;> omega

/-- The day number counts the days of the years before, leap days included. -/
lemma days_eq (h : 1 ≤ date.month) : date.days =
    365 * date.marchYear + date.marchYear / 4 - date.marchYear / 100 + date.marchYear / 400 +
      date.dayOfYear - 719468 := by
  have hmonth := CivilDate.marchMonth_nonneg h
  have hera : (if 0 ≤ date.marchYear then date.marchYear else date.marchYear - 399).tdiv 400 =
      date.marchYear / 400 := @tdiv_of_floor 400 date.marchYear (by decide)
  have hdays : date.days = date.marchYear / 400 * 146097 +
      ((date.marchYear - date.marchYear / 400 * 400) * 365 +
        (date.marchYear - date.marchYear / 400 * 400).tdiv 4 -
        (date.marchYear - date.marchYear / 400 * 400).tdiv 100 +
        ((153 * date.marchMonth + 2).tdiv 5 + date.day - 1)) - 719468 := by
    rw [← hera]
    rfl
  rw [hdays, tdiv_eq_ediv_of_nonneg (by omega), tdiv_eq_ediv_of_nonneg (by omega),
    tdiv_eq_ediv_of_nonneg (by omega)]
  unfold CivilDate.dayOfYear
  omega

/-- The months from March on: how many days of the year came before, and how many the month has. -/
lemma month_cases (hpos : 1 ≤ date.month) (hle : date.month ≤ 12) :
    ∃ before length, (153 * date.marchMonth + 2) / 5 = before ∧
      daysInMonth date.year date.month = length ∧
      ((date.month = 2 ∧ date.marchMonth = 11 ∧ before = 337 ∧
          (IsLeapYear date.year ∧ length = 29 ∨ ¬IsLeapYear date.year ∧ length = 28)) ∨
        (date.month, date.marchMonth, before, length) ∈
          [(3, 0, 0, 31), (4, 1, 31, 30), (5, 2, 61, 31), (6, 3, 92, 30), (7, 4, 122, 31),
            (8, 5, 153, 31), (9, 6, 184, 30), (10, 7, 214, 31), (11, 8, 245, 30),
            (12, 9, 275, 31), (1, 10, 306, 31)]) := by
  refine ⟨_, _, rfl, rfl, ?_⟩
  obtain ⟨year, month, day⟩ := date
  unfold CivilDate.marchMonth daysInMonth
  interval_cases month <;> simp
  exact em _

lemma marchYear_cases (date : CivilDate) :
    (date.month ≤ 2 ∧ date.marchYear = date.year - 1) ∨
      (2 < date.month ∧ date.marchYear = date.year) := by
  unfold CivilDate.marchYear
  split_ifs <;> omega

/-- A valid date is a day of a year of an era. -/
lemma CivilDate.Valid.inEra (h : date.Valid) : InEra (date.marchYear % 400) date.dayOfYear := by
  obtain ⟨hpos, hle, hday, hlast⟩ := h
  obtain ⟨before, length, hbefore, hlength, ⟨hmonth, -, rfl, hleap⟩ | hmem⟩ := month_cases hpos hle
  · have hyear := marchYear_cases date
    unfold IsLeapYear at hleap
    unfold CivilDate.dayOfYear
    exact ⟨by omega, by omega, by omega, by omega, by omega⟩
  · have hsum : 0 ≤ before ∧ before + length < 366 := by
      simp only [List.mem_cons, Prod.mk.injEq, List.not_mem_nil, or_false] at hmem
      omega
    unfold CivilDate.dayOfYear
    exact ⟨by omega, by omega, by omega, by omega, by omega⟩

lemma CivilDate.Valid.marchMonth_eq (h : date.Valid) :
    (5 * date.dayOfYear + 2) / 153 = date.marchMonth := by
  obtain ⟨hpos, hle, hday, hlast⟩ := h
  obtain ⟨before, length, hbefore, hlength, ⟨-, hmarch, rfl, hleap⟩ | hmem⟩ := month_cases hpos hle
  · unfold CivilDate.dayOfYear
    omega
  · simp only [List.mem_cons, Prod.mk.injEq, List.not_mem_nil, or_false] at hmem
    unfold CivilDate.dayOfYear
    omega

/-- Every day of a year of an era is the day of the year of its quotient. -/
lemma dateCivilFromDays_eq {days yearOfEra dayOfYear era : ℤ} (h : InEra yearOfEra dayOfYear)
    (hdays : days = era * 146097 + (daysBefore yearOfEra + dayOfYear) - 719468) :
    dateCivilFromDays days =
      ⟨yearOfEra + era * 400 + if (if (5 * dayOfYear + 2) / 153 < 10
            then (5 * dayOfYear + 2) / 153 + 3 else (5 * dayOfYear + 2) / 153 - 9) ≤ 2
          then 1 else 0,
        if (5 * dayOfYear + 2) / 153 < 10 then (5 * dayOfYear + 2) / 153 + 3
          else (5 * dayOfYear + 2) / 153 - 9,
        dayOfYear - (153 * ((5 * dayOfYear + 2) / 153) + 2) / 5 + 1⟩ := by
  obtain ⟨hlow, hhigh⟩ := dayOfEra_lt h
  have hera : (if 0 ≤ days + 719468 then days + 719468 else days + 719468 - 146096).tdiv 146097 =
      era :=
    (@tdiv_of_floor 146097 (days + 719468) (by decide)).trans (by omega)
  have hday : days + 719468 - era * 146097 = daysBefore yearOfEra + dayOfYear := by omega
  have hyear := yearOfEra_eq h rfl
  obtain ⟨hyear0, hyear400, hnonneg, -, -⟩ := h
  unfold dateCivilFromDays
  dsimp only
  rw [hera, hday, tdiv_eq_ediv_of_nonneg hlow, tdiv_eq_ediv_of_nonneg hlow,
    tdiv_eq_ediv_of_nonneg hlow, tdiv_eq_ediv_of_nonneg (by omega), hyear,
    tdiv_eq_ediv_of_nonneg hyear0, tdiv_eq_ediv_of_nonneg hyear0]
  have hofYear : daysBefore yearOfEra + dayOfYear -
      (365 * yearOfEra + yearOfEra / 4 - yearOfEra / 100) = dayOfYear := by
    unfold daysBefore
    omega
  rw [hofYear, tdiv_eq_ediv_of_nonneg (by omega), tdiv_eq_ediv_of_nonneg (by omega)]

/-- The civil date of the day number of a date. -/
theorem dateCivilFromDays_days (h : date.Valid) : dateCivilFromDays date.days = date := by
  have hinEra := h.inEra
  have hmonth := h.marchMonth_eq
  have hmarch := marchYear_cases date
  have hdays : date.days = date.marchYear / 400 * 146097 +
      (daysBefore (date.marchYear % 400) + date.dayOfYear) - 719468 := by
    rw [days_eq h.month_pos]
    unfold daysBefore
    omega
  rw [dateCivilFromDays_eq hinEra hdays, hmonth]
  have hback : (if date.marchMonth < 10 then date.marchMonth + 3 else date.marchMonth - 9) =
      date.month := by
    have hle := h.month_le
    have hpos := h.month_pos
    unfold CivilDate.marchMonth
    split_ifs <;> omega
  rw [hback]
  ext
  · dsimp only
    split_ifs <;> omega
  · rfl
  · unfold CivilDate.dayOfYear
    dsimp only
    omega

/-- The first of the next month follows the last day of a month. -/
lemma days_nextMonth {year month : ℤ} (hpos : 1 ≤ month) (hlt : month < 12) :
    dateDaysFromCivil year (month + 1) 1 =
      dateDaysFromCivil year month (daysInMonth year month) + 1 := by
  have hthis := @days_eq ⟨year, month, daysInMonth year month⟩ hpos
  have hnext := @days_eq ⟨year, month + 1, 1⟩ (by dsimp only; omega)
  unfold CivilDate.days CivilDate.dayOfYear CivilDate.marchMonth CivilDate.marchYear at hthis hnext
  rw [hthis, hnext]
  by_cases hfebruary : month = 2
  · -- the leap day is the last of its year
    unfold daysInMonth IsLeapYear
    norm_num
    split_ifs <;> omega
  · unfold daysInMonth
    interval_cases month <;> norm_num <;> omega

/-- The following date has the following day number. -/
lemma days_next (h : date.Valid) : date.next.days = date.days + 1 := by
  have hpos := h.month_pos
  have hlast := h.day_le
  unfold CivilDate.next CivilDate.days
  split_ifs with hbefore hdecember
  · -- a day of the same month
    unfold dateDaysFromCivil
    dsimp only
    omega
  · have hday : date.day = daysInMonth date.year date.month := by omega
    rw [hday]
    exact days_nextMonth hpos hdecember
  · -- the first of January
    have hmonth : date.month = 12 := by
      have hle := h.month_le
      omega
    have hday : date.day = daysInMonth date.year date.month := by omega
    have hlength : daysInMonth date.year 12 = 31 := rfl
    have hthis := @days_eq ⟨date.year, 12, 31⟩ (le_of_lt (by norm_num))
    have hnext := @days_eq ⟨date.year + 1, 1, 1⟩ (le_refl _)
    unfold CivilDate.days CivilDate.dayOfYear CivilDate.marchMonth CivilDate.marchYear
      at hthis hnext
    norm_num at hthis hnext
    rw [hday, hmonth, hlength, hthis, hnext]
    omega

lemma daysInMonth_pos (year month : ℤ) : 1 ≤ daysInMonth year month := by
  unfold daysInMonth
  split_ifs <;> decide

lemma CivilDate.Valid.next (h : date.Valid) : date.next.Valid := by
  obtain ⟨hpos, hle, hday, hlast⟩ := h
  unfold CivilDate.next
  split_ifs with hbefore hdecember
  · exact ⟨hpos, hle, by dsimp only; omega, hbefore⟩
  · exact ⟨by dsimp only; omega, hdecember, le_refl _, daysInMonth_pos _ _⟩
  · exact ⟨le_refl _, le_of_lt (by norm_num), le_refl _, daysInMonth_pos _ _⟩

/-! ## Every day number -/

/-- From the epoch on every day number is that of a date. -/
lemma exists_valid_days (count : ℕ) : ∃ date : CivilDate, date.Valid ∧ date.days = count := by
  induction count with
  | zero => exact ⟨epoch, ⟨by decide, by decide, by decide, by decide⟩, by decide⟩
  | succ count ih =>
    obtain ⟨date, hvalid, hdays⟩ := ih
    refine ⟨date.next, hvalid.next, ?_⟩
    rw [days_next hvalid, hdays]
    rfl

/-- Whole eras before it the calendar is the same. -/
lemma valid_eras {eras : ℤ} (h : date.Valid) :
    CivilDate.Valid ⟨date.year - 400 * eras, date.month, date.day⟩ ∧
      CivilDate.days ⟨date.year - 400 * eras, date.month, date.day⟩ =
        date.days - 146097 * eras := by
  have hleap : IsLeapYear (date.year - 400 * eras) ↔ IsLeapYear date.year := by
    unfold IsLeapYear
    omega
  obtain ⟨hpos, hle, hday, hlast⟩ := h
  constructor
  · refine ⟨hpos, hle, hday, ?_⟩
    unfold daysInMonth at hlast ⊢
    simp only [hleap]
    exact hlast
  · have hthis := days_eq hpos
    have hshifted := @days_eq ⟨date.year - 400 * eras, date.month, date.day⟩ hpos
    unfold CivilDate.dayOfYear CivilDate.marchMonth CivilDate.marchYear at hthis hshifted
    dsimp only at hshifted
    rw [hthis, hshifted]
    omega

/-- Every day number is that of a date. -/
lemma exists_date (days : ℤ) : ∃ date : CivilDate, date.Valid ∧ date.days = days := by
  obtain ⟨date, hvalid, hdays⟩ := exists_valid_days (days + 146097 * days.natAbs).toNat
  obtain ⟨hvalid', hdays'⟩ := @valid_eras date days.natAbs hvalid
  refine ⟨_, hvalid', ?_⟩
  omega

/-- The civil date of a day number is a date of the calendar. -/
lemma dateCivilFromDays_valid (days : ℤ) : (dateCivilFromDays days).Valid := by
  obtain ⟨date, hvalid, rfl⟩ := exists_date days
  rwa [dateCivilFromDays_days hvalid]

/-- The day number of the civil date of a day number. -/
theorem days_dateCivilFromDays (days : ℤ) : (dateCivilFromDays days).days = days := by
  obtain ⟨date, hvalid, rfl⟩ := exists_date days
  rw [dateCivilFromDays_days hvalid]

/-- Consecutive days have consecutive dates. -/
theorem dateCivilFromDays_succ (days : ℤ) :
    dateCivilFromDays (days + 1) = (dateCivilFromDays days).next := by
  have hvalid := dateCivilFromDays_valid days
  have hnext := days_next hvalid
  rw [days_dateCivilFromDays] at hnext
  rw [← hnext, dateCivilFromDays_days hvalid.next]

lemma dateCivilFromDays_zero : dateCivilFromDays 0 = epoch := by decide

end

/-! ## Days and times

On integers of the time-value range the double arithmetic of the dates is exact. MakeDay gives the
day number of the carried date (`dateMakeDay_eq`), and a setter that is given components of its
receiver changes nothing (`dateSetFields_self`).
-/

open Library Number

variable {x y t : Number} {n m : ℤ} {q : ℚ}

/-! ## Integers among the doubles -/

lemma toInt64_of_is (h : x.Is n) : toInt64 x = n := by
  obtain ⟨a, rfl, ha⟩ := h
  show truncated a.value = n
  rw [ha, truncated_intCast]

lemma isNegative_of_is (h : x.Is n) : isNegative x = decide (n < 0) := by
  obtain ⟨a, rfl, ha⟩ := h
  show decide (a.value < 0) = _
  rw [ha, decide_eq_decide]
  exact cast_lt_zero

lemma isNonzero_of_is (h : x.Is n) : isNonzero x = decide (n ≠ 0) := by
  obtain ⟨a, rfl, ha⟩ := h
  show decide (a.value ≠ 0) = _
  rw [ha, decide_eq_decide]
  exact cast_ne_zero

lemma exceeds_of_is {bound : ℤ} (h : x.Is n) : exceeds bound x = decide (bound < |n|) := by
  obtain ⟨a, rfl, ha⟩ := h
  show decide ((bound : ℚ) < |a.value|) = _
  rw [ha, decide_eq_decide, ← cast_abs]
  exact cast_lt

lemma dateToInteger_of_is (h : x.Is n) : (dateToInteger x).Is n := by
  have htrunc := h.trunc_int
  obtain ⟨a, rfl, -⟩ := h
  exact htrunc

lemma is_ofInt (h : |n| ≤ 2 ^ 53) : (ofInt n).Is n := ofInt_is h

/-- The remainder of a truncating division, moved up when it is below zero. -/
lemma tmod_cases (n : ℤ) (hpos : 0 < m) :
    (0 ≤ n.tmod m ∧ n.tmod m = n % m) ∨ (n.tmod m < 0 ∧ n.tmod m + m = n % m) := by
  have hlt := tmod_lt_of_pos n hpos
  have hle := (abs_le.mp (abs_tmod_le n hpos)).1
  have hsame : n % m = n.tmod m % m := by
    conv_lhs => rw [← tmod_add_mul_tdiv n m]
    rw [add_mul_emod_self_left]
  rcases le_or_gt 0 (n.tmod m) with hnonneg | hneg
  · exact .inl ⟨hnonneg, by rw [hsame, emod_eq_of_lt hnonneg hlt]⟩
  · refine .inr ⟨hneg, ?_⟩
    rw [hsame, ← add_emod_right, emod_eq_of_lt (by omega) (by omega)]

/-- The modulo of integers. -/
lemma dateModulo_of_is (hx : x.Is n) (hy : y.Is m) (hpos : 0 < m) (hm : m ≤ 2 ^ 53) :
    (dateModulo x y).Is ((n % m : ℤ) : ℚ) := by
  have hmod := hx.fmod_int hy hpos hm
  have hnotneg : ¬m < 0 := not_lt.mpr hpos.le
  unfold dateModulo
  dsimp only
  rw [isNonzero_of_is hmod, isNegative_of_is hmod, isNegative_of_is hy, decide_eq_false hnotneg,
    Bool.bne_false, ← Bool.decide_and]
  rcases tmod_cases n hpos with ⟨hnonneg, heq⟩ | ⟨hneg, heq⟩
  · rw [if_neg (by simp; omega), ← heq]
    exact hmod
  · have hbound : |n.tmod m + m| ≤ 2 ^ 53 := by
      rw [abs_le]
      have hle := (abs_le.mp (abs_tmod_le n hpos)).1
      omega
    rw [if_pos (by simp; omega), ← heq]
    exact hmod.add_int hy hbound

/-! ## Components -/

/-- A time value: an integer within the limit. -/
def TimeValue (t : ℤ) : Prop := |t| ≤ 8640000000000000

instance (t : ℤ) : Decidable (TimeValue t) := inferInstanceAs (Decidable (_ ≤ _))

lemma dateDay_of_is (ht : TimeValue n) (hx : x.Is n) :
    (dateDay x).Is ((n / msPerDay : ℤ) : ℚ) := by
  unfold TimeValue at ht
  exact hx.floor_div (is_ofInt (by decide)) (by decide) (by decide) (by omega)

lemma dateTimeWithinDay_of_is (hx : x.Is n) :
    (dateTimeWithinDay x).Is ((n % msPerDay : ℤ) : ℚ) :=
  dateModulo_of_is hx (is_ofInt (by decide)) (by decide) (by decide)

/-- The components of an integer time value, by integer divisions. -/
lemma dateFields_of_is (ht : TimeValue n) (hx : x.Is n) :
    (dateFields x).year = (dateCivilFromDays (n / msPerDay)).year ∧
      (dateFields x).month = (dateCivilFromDays (n / msPerDay)).month - 1 ∧
      (dateFields x).day = (dateCivilFromDays (n / msPerDay)).day ∧
      (dateFields x).hour = n % msPerDay / msPerHour ∧
      (dateFields x).minute = n % msPerDay / msPerMinute % 60 ∧
      (dateFields x).second = n % msPerDay / msPerSecond % 60 ∧
      (dateFields x).millisecond = n % msPerDay % 1000 := by
  have hday := toInt64_of_is (dateDay_of_is ht hx)
  have hwithin := dateTimeWithinDay_of_is hx
  have hlow := emod_nonneg n (by decide : msPerDay ≠ 0)
  have hhigh : n % msPerDay < 86400000 := emod_lt_of_pos n (by decide)
  have hsmall : |n % msPerDay| < 2 ^ 53 := by
    rw [abs_of_nonneg hlow]
    omega
  have hhour := hwithin.floor_div (is_ofInt (n := msPerHour) (by decide)) (by decide) (by decide)
    hsmall
  have hminute := hwithin.floor_div (is_ofInt (n := msPerMinute) (by decide)) (by decide)
    (by decide) hsmall
  have hsecond := hwithin.floor_div (is_ofInt (n := msPerSecond) (by decide)) (by decide)
    (by decide) hsmall
  have hsixty : (ofInt 60).Is ((60 : ℤ) : ℚ) := is_ofInt (by decide)
  have hthousand : (ofInt 1000).Is ((1000 : ℤ) : ℚ) := is_ofInt (by decide)
  unfold dateFields
  dsimp only
  rw [hday, toInt64_of_is hhour, toInt64_of_is (dateModulo_of_is hminute hsixty (by decide)
    (by decide)), toInt64_of_is (dateModulo_of_is hsecond hsixty (by decide) (by decide)),
    toInt64_of_is (dateModulo_of_is hwithin hthousand (by decide) (by decide))]
  exact ⟨rfl, rfl, rfl, rfl, rfl, rfl, rfl⟩

/-! ## MakeDay -/

/-- The year of a month counted from the January of a year. -/
def carriedYear (year month : ℤ) : ℤ := year + month / 12

/-- The first day of the month that comes from carrying months into years. -/
def carriedMonth (year month : ℤ) : CivilDate := ⟨carriedYear year month, month % 12 + 1, 1⟩

lemma le_abs_round {bound : ℤ} (hbound : |bound| ≤ 2 ^ 53) (h : bound ≤ |q|) :
    bound ≤ |binary64.round q| := by
  have hrep : binary64.Representable bound :=
    FloatFormat.representable_intCast (by decide) hbound
  have hneg : binary64.Representable ((-bound : ℤ) : ℚ) :=
    FloatFormat.representable_intCast (by decide) (by rwa [abs_neg])
  rcases le_abs.mp h with hpos | hminus
  · have hmono := FloatFormat.round_mono (F := binary64) hpos
    rw [FloatFormat.round_of_representable hrep] at hmono
    exact hmono.trans (le_abs_self _)
  · have hle : q ≤ ((-bound : ℤ) : ℚ) := by
      push_cast
      linarith
    have hmono := FloatFormat.round_mono (F := binary64) hle
    rw [FloatFormat.round_of_representable hneg] at hmono
    push_cast at hmono
    exact le_abs.mpr (.inr (by linarith))

/-- A sum that is too large for 53 bits exceeds every smaller bound. -/
lemma exceeds_ofRat {bound : ℤ} (hbound : |bound| < 2 ^ 53) (h : 2 ^ 53 ≤ |n|) :
    exceeds bound (ofRat n) = true := by
  have hround : ((2 ^ 53 : ℤ) : ℚ) ≤ |binary64.round n| :=
    le_abs_round (by norm_num) (by exact_mod_cast h)
  unfold ofRat
  split
  · show decide ((bound : ℚ) < |binary64.round n|) = true
    rw [decide_eq_true_eq]
    apply lt_of_lt_of_le _ hround
    exact_mod_cast (abs_lt.mp hbound).2
  · rfl

/-- The year MakeDay resolves: exact within the bound, and beyond the bound with the exact one. -/
lemma resolvedYear_of_is {year month : ℤ} (hx : x.Is year) (hy : y.Is month)
    (hmonth : |month| < 2 ^ 53) :
    exceeds 1000000000 ((dateToInteger x).add ((dateToInteger y).div (ofInt 12)).floor) =
        decide (1000000000 < |carriedYear year month|) ∧
      (|carriedYear year month| ≤ 1000000000 →
        ((dateToInteger x).add ((dateToInteger y).div (ofInt 12)).floor).Is
          (carriedYear year month)) := by
  have hfloor := (dateToInteger_of_is hy).floor_div (is_ofInt (n := 12) (by decide)) (by decide)
    (by decide) hmonth
  have hinteger := dateToInteger_of_is hx
  by_cases hexact : |carriedYear year month| ≤ 2 ^ 53
  · have his := hinteger.add_int hfloor hexact
    exact ⟨exceeds_of_is his, fun _ => his⟩
  · rw [not_le] at hexact
    have hlarge : 1000000000 < |carriedYear year month| :=
      lt_trans (by norm_num) hexact
    refine ⟨?_, fun hle => absurd hle (not_le.mpr hlarge)⟩
    rw [hinteger.add_eq hfloor, ← cast_add, decide_eq_true hlarge]
    exact exceeds_ofRat (by norm_num) hexact.le

/-- MakeDay is NaN beyond the bound on the year, and otherwise the sum of the day number of the
carried month, the date and minus one. -/
theorem dateMakeDay_eq {year month day : ℤ} {z : Number} (hx : x.Is year) (hy : y.Is month)
    (hz : z.Is day) (hmonth : |month| < 2 ^ 53) :
    dateMakeDay x y z = if 1000000000 < |carriedYear year month| then .nan
      else ((ofInt (carriedMonth year month).days).add z).add (ofInt (-1)) := by
  obtain ⟨hexceeds, his⟩ := resolvedYear_of_is hx hy hmonth
  have hinteger : dateToInteger z = z := (dateToInteger_of_is hz).ext hz
  have hmodulo := dateModulo_of_is (dateToInteger_of_is hy) (is_ofInt (n := 12) (by decide))
    (by decide) (by decide)
  unfold dateMakeDay
  rw [hx.isFinite, hy.isFinite, hz.isFinite]
  dsimp only [Bool.not_true, Bool.or_false]
  rw [hexceeds, hinteger, toInt64_of_is hmodulo]
  by_cases hlarge : 1000000000 < |carriedYear year month|
  · rw [if_pos hlarge, decide_eq_true hlarge, Bool.or_true]
    rfl
  · have hresolved := his (not_lt.mp hlarge)
    rw [if_neg hlarge, decide_eq_false hlarge, hresolved.isFinite, toInt64_of_is hresolved]
    rfl

/-- The first of a month is a date, and its day number is not large when its year is not. -/
lemma carriedMonth_valid (year month : ℤ) : (carriedMonth year month).Valid := by
  unfold carriedMonth
  exact ⟨by dsimp only; omega, by dsimp only; omega, le_refl _, daysInMonth_pos _ _⟩

lemma abs_days_le {date : CivilDate} (h : date.Valid) (hyear : |date.year| ≤ 1000000000) :
    |date.days| ≤ 2 ^ 40 := by
  have hinEra := h.inEra.day_le
  have hinEra' := h.inEra.day_nonneg
  have hmarch := marchYear_cases date
  rw [abs_le] at hyear ⊢
  rw [days_eq h.month_pos]
  omega

/-- Of a date that is not large, MakeDay is the exact sum. -/
lemma dateMakeDay_is {year month day : ℤ} {z : Number} (hx : x.Is year) (hy : y.Is month)
    (hz : z.Is day) (hmonth : |month| < 2 ^ 53) (hyear : |carriedYear year month| ≤ 1000000000)
    (hday : |day| ≤ 2 ^ 52) :
    (dateMakeDay x y z).Is (((carriedMonth year month).days + day - 1 : ℤ) : ℚ) := by
  have hdays := abs_days_le (carriedMonth_valid year month) hyear
  rw [abs_le] at hdays hday
  rw [dateMakeDay_eq hx hy hz hmonth, if_neg (not_lt.mpr hyear), sub_eq_add_neg]
  have hsum : |(carriedMonth year month).days + day| ≤ 2 ^ 53 := by
    rw [abs_le]
    omega
  have hall : |(carriedMonth year month).days + day + -1| ≤ 2 ^ 53 := by
    rw [abs_le]
    omega
  have hfirst : (ofInt (carriedMonth year month).days).Is (carriedMonth year month).days :=
    is_ofInt (by rw [abs_le]; omega)
  exact (hfirst.add_int hz hsum).add_int (is_ofInt (by decide)) hall

/-! ## The setters -/

/-- A date of a month is so many days after its first. -/
lemma days_first (date : CivilDate) :
    CivilDate.days ⟨date.year, date.month, 1⟩ + date.day - 1 = date.days := by
  unfold CivilDate.days dateDaysFromCivil
  dsimp only
  omega

/-- What a window of a list supplies at an index of the list is what is there. -/
lemma window_getD {components : List Number} {first count limit index : ℕ} (hle : first ≤ index)
    (hindex : index < components.length) :
    ((((components.drop first).take count).take limit)[index - first]?).getD components[index] =
      components[index] := by
  have hplace : first + (index - first) = index := by omega
  rw [List.take_take, List.getElem?_take, List.getElem?_drop, hplace,
    List.getElem?_eq_getElem hindex]
  split <;> rfl

/-- Components supplied as they are change nothing. -/
lemma supply_self (components : List Number) (first count limit : ℕ) :
    supply components first (((components.drop first).take count).take limit) = components := by
  unfold supply
  apply List.ext_getElem
  · rw [List.length_mapIdx]
  · intro index hindex hbound
    rw [List.getElem_mapIdx]
    split
    · exact window_getD ‹_› hbound
    · rfl

lemma timeValue_abs (ht : TimeValue n) : |n| ≤ 2 ^ 53 := by
  exact ht.trans (by norm_num)

/-- TimeClip keeps a time value. -/
lemma dateTimeClip_of_is (ht : TimeValue n) (hx : x.Is n) : (dateTimeClip x).Is n := by
  have hexceeds : exceeds timeValueLimit x = false := by
    have hint := @exceeds_of_is _ _ 8640000000000000 hx
    rw [decide_eq_false (not_lt.mpr ht)] at hint
    exact_mod_cast hint
  unfold dateTimeClip
  rw [hx.isFinite, hexceeds]
  exact dateToInteger_of_is hx

/-- MakeDate puts a time value together again. -/
lemma dateMakeDate_of_is (ht : TimeValue n) (hx : x.Is ((n / msPerDay : ℤ) : ℚ))
    (hy : y.Is ((n % msPerDay : ℤ) : ℚ)) : (dateMakeDate x y).Is n := by
  have hsum : n / msPerDay * msPerDay + n % msPerDay = n := by
    unfold msPerDay
    omega
  have hproduct : |n / msPerDay * msPerDay| ≤ 2 ^ 53 := by
    unfold TimeValue at ht
    unfold msPerDay
    rw [abs_le] at ht ⊢
    omega
  have hday := hx.mul_int (is_ofInt (n := msPerDay) (by decide)) hproduct
  have hdate := hday.add_int hy (by rw [hsum]; exact timeValue_abs ht)
  rw [hsum] at hdate
  unfold dateMakeDate
  rw [hx.isFinite, hy.isFinite]
  dsimp only [Bool.not_true, Bool.or_false]
  rw [hdate.isFinite]
  exact hdate

/-- MakeTime puts the time within a day together again. -/
lemma dateMakeTime_of_is {within : ℤ} (hlow : 0 ≤ within) (hhigh : within < msPerDay) :
    (dateMakeTime (ofInt (within / msPerHour)) (ofInt (within / msPerMinute % 60))
      (ofInt (within / msPerSecond % 60)) (ofInt (within % 1000))).Is within := by
  unfold msPerDay at hhigh
  unfold msPerHour msPerMinute msPerSecond
  have hsmall : ∀ value : ℤ, 0 ≤ value → value ≤ 86400000 → |value| ≤ 2 ^ 53 := by
    intro value hnonneg hle
    rw [abs_of_nonneg hnonneg]
    omega
  have hhour := is_ofInt (hsmall (within / 3600000) (by omega) (by omega))
  have hminute := is_ofInt (hsmall (within / 60000 % 60) (by omega) (by omega))
  have hsecond := is_ofInt (hsmall (within / 1000 % 60) (by omega) (by omega))
  have hmillisecond := is_ofInt (hsmall (within % 1000) (by omega) (by omega))
  have hhours := (dateToInteger_of_is hhour).mul_int
    (is_ofInt (n := 3600000) (by decide)) (hsmall _ (by omega) (by omega))
  have hminutes := (dateToInteger_of_is hminute).mul_int
    (is_ofInt (n := 60000) (by decide)) (hsmall _ (by omega) (by omega))
  have hseconds := (dateToInteger_of_is hsecond).mul_int
    (is_ofInt (n := 1000) (by decide)) (hsmall _ (by omega) (by omega))
  have hsum := ((hhours.add_int hminutes (hsmall _ (by omega) (by omega))).add_int hseconds
    (hsmall _ (by omega) (by omega))).add_int (dateToInteger_of_is hmillisecond)
    (hsmall _ (by omega) (by omega))
  have htotal : within / 3600000 * 3600000 + within / 60000 % 60 * 60000 +
      within / 1000 % 60 * 1000 + within % 1000 = within := by omega
  rw [htotal] at hsum
  unfold dateMakeTime
  rw [hhour.isFinite, hminute.isFinite, hsecond.isFinite, hmillisecond.isFinite]
  exact hsum

/-- MakeDay puts a day number together again. -/
lemma dateMakeDay_of_date {date : CivilDate} (h : date.Valid) (hdays : |date.days| ≤ 2 ^ 30) :
    (dateMakeDay (ofInt date.year) (ofInt (date.month - 1)) (ofInt date.day)).Is date.days := by
  have hpos := h.month_pos
  have hle := h.month_le
  have hday := h.day_pos
  have hlast := h.day_le
  have hlength : daysInMonth date.year date.month ≤ 31 := by
    unfold daysInMonth
    split_ifs <;> decide
  have hyear : |date.year| ≤ 1000000000 := by
    have hinEra := h.inEra.day_le
    have hinEra' := h.inEra.day_nonneg
    have hmarch := marchYear_cases date
    rw [days_eq hpos, abs_le] at hdays
    rw [abs_le]
    omega
  have hcarried : carriedMonth date.year (date.month - 1) = ⟨date.year, date.month, 1⟩ := by
    unfold carriedMonth carriedYear
    ext
    · dsimp only
      omega
    · dsimp only
      omega
    · rfl
  have hmakeDay := dateMakeDay_is (is_ofInt (n := date.year) (hyear.trans (by norm_num)))
    (is_ofInt (n := date.month - 1) (by rw [abs_le]; omega))
    (is_ofInt (n := date.day) (by rw [abs_le]; omega)) (by rw [abs_lt]; omega)
    (by unfold carriedYear; rw [abs_le] at hyear ⊢; omega) (by rw [abs_le]; omega)
  rw [hcarried, days_first] at hmakeDay
  exact hmakeDay

/-- The local time zone is UTC. -/
lemma dateLocalTime_of_is (ht : TimeValue n) (hx : x.Is n) :
    dateLocalTime x = x ∧ dateUtcTime x = x := by
  have hzero : dateLocalTimeZoneAdjustment.Is ((0 : ℤ) : ℚ) := is_ofInt (by decide)
  have hneg := hzero.neg_int (by decide)
  have habs := timeValue_abs ht
  have hplus := hx.add_int hzero (by rwa [add_zero])
  have hminus := hx.add_int hneg (by rwa [neg_zero, add_zero])
  rw [add_zero] at hplus
  rw [neg_zero, add_zero] at hminus
  unfold dateLocalTime dateUtcTime
  rw [hx.isFinite]
  exact ⟨hplus.ext hx, hminus.ext hx⟩

/-- A component setter given components of its receiver, as they are, changes nothing. -/
theorem dateSetFields_self (method : DateMethod) (ht : TimeValue n) (hx : t.Is n) (count : ℕ) :
    dateSetFields method t (((dateFields t).components.drop method.shape.first).take count) = t := by
  obtain ⟨hyear, hmonth, hday, hhour, hminute, hsecond, hmillisecond⟩ := dateFields_of_is ht hx
  obtain ⟨hlocal, -⟩ := dateLocalTime_of_is ht hx
  have hvalid := dateCivilFromDays_valid (n / msPerDay)
  have hback := days_dateCivilFromDays (n / msPerDay)
  have hdays : |(dateCivilFromDays (n / msPerDay)).days| ≤ 2 ^ 30 := by
    rw [hback]
    unfold TimeValue at ht
    unfold msPerDay
    rw [abs_le] at ht ⊢
    omega
  have hmakeDay := dateMakeDay_of_date hvalid hdays
  have hmakeTime := dateMakeTime_of_is (emod_nonneg n (by decide : msPerDay ≠ 0))
    (emod_lt_of_pos n (by decide))
  rw [hback] at hmakeDay
  have hmakeDate := dateMakeDate_of_is ht hmakeDay hmakeTime
  obtain ⟨-, hutc⟩ := dateLocalTime_of_is ht hmakeDate
  have hclip := (dateTimeClip_of_is ht hmakeDate).ext hx
  obtain ⟨a, rfl, ha⟩ := hx
  unfold dateSetFields
  dsimp only
  rw [hlocal, ite_self, supply_self, if_neg (by simp)]
  unfold DateFields.components
  rw [hyear, hmonth, hday, hhour, hminute, hsecond, hmillisecond]
  dsimp only [List.map]
  rw [hutc, ite_self]
  exact hclip

/-! ## Dates, days and setters -/

/-- The civil date of every day number is that of the calendar, and the day number is its inverse;
MakeDay carries months into years, up to a bound on the year beyond which it is NaN, and adds the
date to the day number; a component setter given components of its receiver changes nothing. -/
theorem dates_of_calendar :
    dateCivilFromDays 0 = epoch ∧
    (∀ days, (dateCivilFromDays days).Valid ∧ (dateCivilFromDays days).days = days ∧
      dateCivilFromDays (days + 1) = (dateCivilFromDays days).next) ∧
    (∀ date : CivilDate, date.Valid → dateCivilFromDays date.days = date) ∧
    (∀ (x y z : Number) (year month day : ℤ), x.Is year → y.Is month → z.Is day →
      |month| < 2 ^ 53 →
      (1000000000 < |carriedYear year month| → dateMakeDay x y z = .nan) ∧
      (|carriedYear year month| ≤ 1000000000 →
        dateMakeDay x y z = ((ofInt (carriedMonth year month).days).add z).add (ofInt (-1)) ∧
        (|day| ≤ 2 ^ 52 →
          (dateMakeDay x y z).Is (((carriedMonth year month).days + day - 1 : ℤ) : ℚ)))) ∧
    ∀ (method : DateMethod) (t : Number) (value : ℤ) (count : ℕ), TimeValue value → t.Is value →
      dateSetFields method t (((dateFields t).components.drop method.shape.first).take count) =
        t := by
  refine ⟨dateCivilFromDays_zero, ?_, fun date => dateCivilFromDays_days, ?_, ?_⟩
  · intro days
    exact ⟨dateCivilFromDays_valid days, days_dateCivilFromDays days, dateCivilFromDays_succ days⟩
  · intro x y z year month day hx hy hz hmonth
    have hmakeDay := dateMakeDay_eq hx hy hz hmonth
    constructor
    · intro hlarge
      rwa [if_pos hlarge] at hmakeDay
    · intro hyear
      rw [if_neg (not_lt.mpr hyear)] at hmakeDay
      exact ⟨hmakeDay, dateMakeDay_is hx hy hz hmonth hyear⟩
  · exact fun method t value count ht hx => dateSetFields_self method ht hx count

/-- The first of January of year 1000000001 has a day number, which MakeDay does not give. -/
theorem dateMakeDay_lateYear :
    ¬(dateMakeDay (ofInt 1000000001) (ofInt 0) (ofInt 1)).Is
      (((carriedMonth 1000000001 0).days + 1 - 1 : ℤ) : ℚ) := by
  have hnan := dateMakeDay_eq (is_ofInt (n := 1000000001) (by decide))
    (is_ofInt (n := 0) (by decide)) (is_ofInt (n := 1) (by decide)) (by decide)
  rw [if_pos (by decide)] at hnan
  rw [hnan]
  rintro ⟨x, hx, -⟩
  cases hx

end Oseo.DateTime
