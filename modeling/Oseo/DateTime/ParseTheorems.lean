import Oseo.DateTime.WrittenDates

/-!
# The formats of this realm

`date_parse_own_format` reads the fields of a text of this realm (`dateParseOwnFormat_units`), and
it reads nothing else (`dateParseOwnFormat_some`).
-/

namespace Oseo.DateTime

open Option
open List
open Oseo.Library (Number)
open Oseo.Library.Number (ofInt)
open Oseo.UriCoding (CodeUnit codeUnit between)

variable {units rest : List CodeUnit} {character : Char} {names : List String} {index : ℕ}

/-! ## Names -/

/-- A table of names of three units that are all different. -/
def NameTable (names : List String) : Prop :=
  ∀ index : Fin names.length, (dateName names (index : ℕ)).length = 3 ∧
    (names.findIdx? fun name => dateName names (index : ℕ) = asciiUnits name) = some (index : ℕ)

instance (names : List String) : Decidable (NameTable names) :=
  inferInstanceAs (Decidable (∀ _ : Fin names.length, _))

lemma weekdayNames_table : NameTable dateWeekdayNames := by decide

lemma monthNames_table : NameTable dateMonthNames := by decide

lemma dateNamedIndex_units (htable : NameTable names) (hindex : index < names.length) :
    dateNamedIndex names (dateName names index ++ rest) = some index := by
  obtain ⟨hlength, hfind⟩ := htable ⟨index, hindex⟩
  dsimp only at hlength hfind
  have htake : (dateName names index ++ rest).take 3 = dateName names index := by
    rw [← hlength]
    exact take_left
  unfold dateNamedIndex
  rw [length_append, if_neg (by omega), htake]
  exact hfind

lemma drop_name (htable : NameTable names) (hindex : index < names.length) :
    (dateName names index ++ rest).drop 3 = rest := by
  obtain ⟨hlength, -⟩ := htable ⟨index, hindex⟩
  rw [← hlength]
  exact drop_left

lemma dateNamedIndex_some (h : dateNamedIndex names units = some index) :
    index < names.length ∧ units = dateName names index ++ units.drop 3 := by
  unfold dateNamedIndex at h
  split at h
  · cases h
  · obtain ⟨hlt, hname, -⟩ := findIdx?_eq_some_iff_getElem.mp h
    refine ⟨hlt, ?_⟩
    rw [decide_eq_true_iff] at hname
    have hget : dateName names index = asciiUnits names[index] := by
      unfold dateName
      rw [Int.toNat_natCast, getD_eq_getElem?_getD, getElem?_eq_getElem hlt]
      rfl
    rw [hget, ← hname, take_append_drop]

/-! ## Dates -/

lemma dateParseOwnDate_units (utcFormat : Bool) (month : Fin 12) (day : Fin 100) :
    dateParseOwnDate utcFormat (if utcFormat then
        digitUnits 2 day ++ codeUnit ' ' :: (dateName dateMonthNames (month : ℕ) ++ rest)
      else dateName dateMonthNames (month : ℕ) ++ codeUnit ' ' :: (digitUnits 2 day ++ rest)) =
      some (((month : ℕ), ((day : ℕ) : ℤ)), rest) := by
  have hmonth : (month : ℕ) < dateMonthNames.length := month.isLt
  unfold dateParseOwnDate
  cases utcFormat with
  | true =>
    rw [if_pos rfl, if_pos rfl, readTwo, bind_some]
    dsimp only
    rw [dateExpect_cons, bind_some, dateNamedIndex_units monthNames_table hmonth,
      bind_some, drop_name monthNames_table hmonth]
  | false =>
    rw [if_neg Bool.false_ne_true, if_neg Bool.false_ne_true,
      dateNamedIndex_units monthNames_table hmonth, bind_some,
      drop_name monthNames_table hmonth, dateExpect_cons, bind_some, readTwo,
      bind_some]

lemma dateParseOwnDate_some {utcFormat : Bool} {result : ℕ × ℤ}
    (h : dateParseOwnDate utcFormat units = some (result, rest)) :
    ∃ (month : Fin 12) (day : Fin 100), units = if utcFormat then
        digitUnits 2 day ++ codeUnit ' ' :: (dateName dateMonthNames (month : ℕ) ++ rest)
      else dateName dateMonthNames (month : ℕ) ++ codeUnit ' ' :: (digitUnits 2 day ++ rest) := by
  unfold dateParseOwnDate at h
  cases utcFormat with
  | true =>
    rw [if_pos rfl] at h
    obtain ⟨⟨day, behindDay⟩, hread, h⟩ := bind_eq_some_iff.mp h
    obtain ⟨dayField, hunits⟩ := readTwo_some hread
    obtain ⟨behindSpace, hexpect, h⟩ := bind_eq_some_iff.mp h
    obtain ⟨month, hmonth, h⟩ := bind_eq_some_iff.mp h
    obtain ⟨hlt, hname⟩ := dateNamedIndex_some hmonth
    have hrest : behindSpace.drop 3 = rest := (Prod.mk.inj (some.inj h)).2
    refine ⟨⟨month, hlt⟩, dayField, ?_⟩
    rw [if_pos rfl, hunits, dateExpect_some hexpect, ← hrest, ← hname]
  | false =>
    rw [if_neg Bool.false_ne_true] at h
    obtain ⟨month, hmonth, h⟩ := bind_eq_some_iff.mp h
    obtain ⟨hlt, hname⟩ := dateNamedIndex_some hmonth
    obtain ⟨behindSpace, hexpect, h⟩ := bind_eq_some_iff.mp h
    obtain ⟨⟨day, rest'⟩, hread, h⟩ := bind_eq_some_iff.mp h
    obtain ⟨dayField, htail⟩ := readTwo_some hread
    have hrest : rest' = rest := (Prod.mk.inj (some.inj h)).2
    refine ⟨⟨month, hlt⟩, dayField, ?_⟩
    rw [if_neg Bool.false_ne_true, hname, dateExpect_some hexpect, htail, hrest]

/-! ## Years -/

lemma takeWhile_field {width value : ℕ} :
    (digitUnits width value ++ codeUnit ' ' :: rest).takeWhile (between '0' '9') =
      digitUnits width value := by
  rw [takeWhile_append_of_pos fun _ hmem => digitUnits_between hmem,
    takeWhile_cons_of_neg (by decide), append_nil]

lemma dateParseOwnYear_units (year : OwnYear) :
    dateParseOwnYear (year.units ++ codeUnit ' ' :: rest) =
      some (year.value, codeUnit ' ' :: rest) := by
  obtain ⟨negative, width, digits, hleast, hmost, hfits⟩ := year
  have hread : ∀ sign : Bool, (if width < 4 || 6 < width then none
      else (dateReadDigits width (digitUnits width digits ++ codeUnit ' ' :: rest)).bind
        fun result => some (if sign then -result.1 else result.1, result.2)) =
      some (if sign then -(digits : ℤ) else digits, codeUnit ' ' :: rest) := by
    intro sign
    rw [if_neg (by simp; omega), dateReadDigits_units hfits]
    rfl
  have hlength := digitUnits_length width digits
  unfold dateParseOwnYear OwnYear.units OwnYear.value
  dsimp only
  cases negative with
  | true =>
    have hsign : (if true then [codeUnit '-'] else []) ++ digitUnits width digits ++
        codeUnit ' ' :: rest = codeUnit '-' :: (digitUnits width digits ++ codeUnit ' ' :: rest) :=
      rfl
    rw [hsign, comesNext_self, if_pos rfl, tail_cons, takeWhile_field, hlength]
    exact hread true
  | false =>
    have hsign : (if false then [codeUnit '-'] else []) ++ digitUnits width digits ++
        codeUnit ' ' :: rest = digitUnits width digits ++ codeUnit ' ' :: rest := rfl
    obtain ⟨below, rfl⟩ : ∃ below, width = below + 1 := ⟨width - 1, by omega⟩
    rw [hsign, comesNext_units (by decide), if_neg Bool.false_ne_true, takeWhile_field, hlength]
    exact hread false

lemma dateParseOwnYear_some {result : ℤ} (h : dateParseOwnYear units = some (result, rest)) :
    ∃ year : OwnYear, units = year.units ++ rest := by
  unfold dateParseOwnYear at h
  dsimp only at h
  generalize hwidth : ((if comesNext '-' units then units.tail else units).takeWhile
    (between '0' '9')).length = width at h
  split at h
  · cases h
  · next hrange =>
    simp only [Bool.or_eq_true, decide_eq_true_iff, not_or, not_lt] at hrange
    obtain ⟨⟨year, rest'⟩, hread, h⟩ := bind_eq_some_iff.mp h
    obtain ⟨value, hvalue, -, htail⟩ := dateReadDigits_some hread
    have hrest : rest' = rest := (Prod.mk.inj (some.inj h)).2
    refine ⟨⟨comesNext '-' units, width, value, hrange.1, hrange.2, hvalue⟩, ?_⟩
    unfold OwnYear.units
    rw [append_assoc, ← hrest, ← htail]
    cases hsign : comesNext '-' units with
    | true => exact comesNext_true hsign
    | false => rfl

/-! ## Clock times -/

lemma dateParseOwnTime_units (hour minute second : Fin 100) (result : ClockTime × List CodeUnit) :
    dateParseOwnTime (digitUnits 2 hour ++ codeUnit ':' ::
        (digitUnits 2 minute ++ codeUnit ':' :: (digitUnits 2 second ++ rest))) = some result ↔
      ((hour : ℕ) ≤ 24 ∧ (minute : ℕ) ≤ 59 ∧ (second : ℕ) ≤ 59) ∧
        result = (⟨(hour : ℕ), (minute : ℕ), (second : ℕ), 0⟩, rest) := by
  unfold dateParseOwnTime
  rw [readTwo, bind_some]
  dsimp only
  rw [dateExpect_cons, bind_some, readTwo, bind_some]
  rw [dateExpect_cons, bind_some, readTwo, bind_some]
  split
  · next hrange =>
    simp at hrange ⊢
    omega
  · next hrange =>
    rw [some_inj, eq_comm]
    simp at hrange ⊢
    omega

lemma dateParseOwnTime_some {result : ClockTime}
    (h : dateParseOwnTime units = some (result, rest)) :
    ∃ hour minute second : Fin 100, units = digitUnits 2 hour ++ codeUnit ':' ::
      (digitUnits 2 minute ++ codeUnit ':' :: (digitUnits 2 second ++ rest)) := by
  obtain ⟨⟨hour, behindHour⟩, hread, h⟩ := bind_eq_some_iff.mp h
  obtain ⟨hourField, hunits⟩ := readTwo_some hread
  obtain ⟨behindColon, hexpect, h⟩ := bind_eq_some_iff.mp h
  obtain ⟨⟨minute, behindMinute⟩, hread', h⟩ := bind_eq_some_iff.mp h
  obtain ⟨minuteField, hunits'⟩ := readTwo_some hread'
  obtain ⟨behindColon', hexpect', h⟩ := bind_eq_some_iff.mp h
  obtain ⟨⟨second, behindSecond⟩, hread'', h⟩ := bind_eq_some_iff.mp h
  obtain ⟨secondField, hunits''⟩ := readTwo_some hread''
  have hrest : behindSecond = rest := by
    dsimp only at h
    split at h
    · cases h
    · exact (Prod.mk.inj (some.inj h)).2
  refine ⟨hourField, minuteField, secondField, ?_⟩
  rw [hunits, dateExpect_some hexpect, hunits', dateExpect_some hexpect', hunits'', hrest]

/-! ## Zones -/

lemma dateSkipZoneName_units (name : Option (List CodeUnit)) :
    dateSkipZoneName (nameUnits name) = some [] := by
  cases name with
  | none => rfl
  | some name =>
    have hlast : (nameUnits (some name)).getLast? = some (codeUnit ')') := by
      unfold nameUnits
      simp [getLast?_cons]
    unfold dateSkipZoneName
    rw [hlast]
    unfold nameUnits
    rw [if_neg (by simp), dateExpect_cons, bind_some, dateExpect_cons, bind_some,
      if_neg (not_not_intro rfl)]

lemma dateSkipZoneName_some (h : dateSkipZoneName units = some rest) :
    rest = [] ∧ ∃ name, units = nameUnits name := by
  unfold dateSkipZoneName at h
  split at h
  · next hnil =>
    cases h
    have hunits : units = [] := isEmpty_iff.mp hnil
    exact ⟨hunits, none, hunits⟩
  · obtain ⟨behindSpace, hspace, h⟩ := bind_eq_some_iff.mp h
    obtain ⟨behindParen, hparen, h⟩ := bind_eq_some_iff.mp h
    have hunits := dateExpect_some hspace
    rw [dateExpect_some hparen] at hunits
    split at h
    · cases h
    · next hlast =>
      cases h
      refine ⟨rfl, ?_⟩
      rw [ne_eq, not_not, hunits] at hlast
      rcases eq_nil_or_concat behindParen with hnil | ⟨name, unit, hconcat⟩
      · rw [hnil] at hlast
        have hne : codeUnit '(' ≠ codeUnit ')' := by decide
        exact absurd (some.inj hlast) hne
      · rw [hconcat] at hlast
        have hunit : unit = codeUnit ')' := by simpa [getLast?_cons] using hlast
        refine ⟨some name, ?_⟩
        rw [hunits, hconcat, hunit, concat_eq_append]
        rfl

lemma dateParseOwnZone_units {negative : Bool} {hour minute : Fin 100}
    {name : Option (List CodeUnit)} (h : (OwnZone.zone negative hour minute name).Checked) :
    ∃ x : Number, x.Is (OwnZone.zone negative hour minute name).value ∧
      dateParseOwnZone (OwnZone.zone negative hour minute name).units = some (x, []) := by
  obtain ⟨hhour, hminute⟩ := h
  obtain ⟨hsign, hnegative⟩ := @sign_comes
    (digitUnits 2 hour ++ (digitUnits 2 minute ++ nameUnits name)) negative
  have hunits : (OwnZone.zone negative hour minute name).units =
    codeUnit (signCharacter negative) ::
      (digitUnits 2 hour ++ (digitUnits 2 minute ++ nameUnits name)) := rfl
  refine ⟨_, offset_is hhour hminute, ?_⟩
  rw [Bool.or_comm] at hsign
  unfold dateParseOwnZone
  rw [hunits]
  dsimp only
  rw [← Bool.not_or, hsign, hnegative]
  show (dateReadDigits 2 (digitUnits 2 hour ++ _)).bind _ = _
  rw [readTwo, bind_some]
  rw [readTwo, bind_some]
  rw [if_neg (by simp; omega), dateSkipZoneName_units, bind_some]

lemma dateParseOwnZone_checked {negative : Bool} {hour minute : Fin 100}
    {name : Option (List CodeUnit)} {result : Number × List CodeUnit}
    (h : dateParseOwnZone (OwnZone.zone negative hour minute name).units = some result) :
    (OwnZone.zone negative hour minute name).Checked := by
  obtain ⟨hsign, hnegative⟩ := @sign_comes
    (digitUnits 2 hour ++ (digitUnits 2 minute ++ nameUnits name)) negative
  have hunits : (OwnZone.zone negative hour minute name).units =
    codeUnit (signCharacter negative) ::
      (digitUnits 2 hour ++ (digitUnits 2 minute ++ nameUnits name)) := rfl
  rw [Bool.or_comm] at hsign
  unfold dateParseOwnZone at h
  rw [hunits] at h
  dsimp only at h
  rw [← Bool.not_or, hsign, hnegative] at h
  change (dateReadDigits 2 (digitUnits 2 hour ++ _)).bind _ = _ at h
  rw [readTwo, bind_some] at h
  rw [readTwo, bind_some] at h
  split at h
  · cases h
  · next hrange =>
    simp at hrange
    exact ⟨by omega, by omega⟩

lemma dateParseOwnZone_some {result : Number} (h : dateParseOwnZone units = some (result, rest)) :
    rest = [] ∧ ∃ negative hour minute name,
      units = (OwnZone.zone negative hour minute name).units := by
  unfold dateParseOwnZone at h
  dsimp only at h
  split at h
  · cases h
  · next hnone =>
    have hsign : (comesNext '+' units || comesNext '-' units) = true := by
      rw [← Bool.not_or, Bool.not_eq_true, Bool.not_eq_false'] at hnone
      rwa [Bool.or_comm]
    obtain ⟨negative, hunits⟩ := sign_next hsign
    obtain ⟨⟨hour, behindHour⟩, hread, h⟩ := bind_eq_some_iff.mp h
    obtain ⟨hourField, htail⟩ := readTwo_some hread
    obtain ⟨⟨minute, behindMinute⟩, hread', h⟩ := bind_eq_some_iff.mp h
    obtain ⟨minuteField, htail'⟩ := readTwo_some hread'
    dsimp only at h
    split at h
    · cases h
    · obtain ⟨rest', hskip, h⟩ := bind_eq_some_iff.mp h
      obtain ⟨hnil, name, hname⟩ := dateSkipZoneName_some hskip
      have hrest : rest' = rest := (Prod.mk.inj (some.inj h)).2
      refine ⟨by rw [← hrest, hnil], negative, hourField, minuteField, name, ?_⟩
      dsimp only at htail'
      rw [hunits, htail, htail', hname]
      rfl

/-! ## Texts of this realm -/

/-- The units behind the date. -/
def OwnText.behindDate (text : OwnText) : List CodeUnit :=
  codeUnit ' ' :: (text.year.units ++ codeUnit ' ' :: (digitUnits 2 text.hour ++ codeUnit ':' ::
    (digitUnits 2 text.minute ++ codeUnit ':' :: (digitUnits 2 text.second ++
      codeUnit ' ' :: codeUnit 'G' :: codeUnit 'M' :: codeUnit 'T' :: text.zone.units))))

/-- The units behind the weekday. -/
def OwnText.behindWeekday (text : OwnText) : List CodeUnit :=
  (if text.zone.isUtc then [codeUnit ','] else []) ++ codeUnit ' ' ::
    if text.zone.isUtc then
      digitUnits 2 text.day ++ codeUnit ' ' ::
        (dateName dateMonthNames (text.month : ℕ) ++ text.behindDate)
    else dateName dateMonthNames (text.month : ℕ) ++ codeUnit ' ' ::
      (digitUnits 2 text.day ++ text.behindDate)

lemma OwnText.units_eq (text : OwnText) :
    text.units = dateName dateWeekdayNames (text.weekday : ℕ) ++ text.behindWeekday := by
  have hgmt : asciiUnits " GMT" = [codeUnit ' ', codeUnit 'G', codeUnit 'M', codeUnit 'T'] := by
    decide
  unfold OwnText.units ownDateUnits ownTimeUnits OwnText.behindWeekday OwnText.behindDate
  cases text.zone.isUtc with
  | true => simp [hgmt]
  | false => simp [hgmt]

lemma OwnText.comma_next (text : OwnText) :
    comesNext ',' text.behindWeekday = text.zone.isUtc := by
  unfold OwnText.behindWeekday
  cases text.zone.isUtc with
  | true => exact comesNext_self
  | false =>
    rw [if_neg Bool.false_ne_true, nil_append, comesNext_cons]
    decide

/-- The parser behind the year. -/
def parseBehindYear (utcFormat : Bool) (weekday : ℕ) (year : ℤ) (month : ℕ) (day : ℤ)
    (units : List CodeUnit) : Option Number :=
  (dateExpect ' ' units).bind fun rest =>
    (dateParseOwnTime rest).bind fun (time, rest) =>
      (dateExpect ' ' rest).bind fun rest =>
        (dateExpect 'G' rest).bind fun rest =>
          (dateExpect 'M' rest).bind fun rest =>
            (dateExpect 'T' rest).bind fun rest =>
              (if utcFormat then some (ofInt 0, rest) else dateParseOwnZone rest).bind
                fun (offsetMinutes, rest) =>
                  if !rest.isEmpty then none
                  else dateComposeOwn weekday year month day time offsetMinutes

/-- The date is read, and the rest of the text is left. -/
lemma dateParseOwnFormat_date (text : OwnText) :
    dateParseOwnFormat text.units = parseBehindYear text.zone.isUtc text.weekday text.year.value
      text.month (text.day : ℕ) (codeUnit ' ' :: (digitUnits 2 text.hour ++ codeUnit ':' ::
        (digitUnits 2 text.minute ++ codeUnit ':' :: (digitUnits 2 text.second ++
          codeUnit ' ' :: codeUnit 'G' :: codeUnit 'M' :: codeUnit 'T' :: text.zone.units)))) := by
  have hweekday : (text.weekday : ℕ) < dateWeekdayNames.length := text.weekday.isLt
  have hspace : (if text.zone.isUtc then text.behindWeekday.tail else text.behindWeekday) =
      codeUnit ' ' :: if text.zone.isUtc then
        digitUnits 2 text.day ++ codeUnit ' ' ::
          (dateName dateMonthNames (text.month : ℕ) ++ text.behindDate)
      else dateName dateMonthNames (text.month : ℕ) ++ codeUnit ' ' ::
        (digitUnits 2 text.day ++ text.behindDate) := by
    unfold OwnText.behindWeekday
    cases text.zone.isUtc with
    | true => rfl
    | false => rfl
  unfold dateParseOwnFormat
  rw [text.units_eq, dateNamedIndex_units weekdayNames_table hweekday, bind_some,
    drop_name weekdayNames_table hweekday]
  dsimp only
  rw [text.comma_next, hspace, dateExpect_cons, bind_some, dateParseOwnDate_units,
    bind_some]
  unfold OwnText.behindDate
  rw [dateExpect_cons, bind_some, dateParseOwnYear_units, bind_some]
  rfl

/-- A text whose fields pass the range checks is parsed as what it names, if its weekday agrees. -/
theorem dateParseOwnFormat_units {text : OwnText} (hhour : (text.hour : ℕ) ≤ 24)
    (hminute : (text.minute : ℕ) ≤ 59) (hsecond : (text.second : ℕ) ≤ 59)
    (hzone : text.zone.Checked) :
    ∃ x : Number, x.Is text.written.offset ∧ dateParseOwnFormat text.units =
      dateComposeOwn text.weekday text.year.value text.month (text.day : ℕ) text.written.clock
        x := by
  have htime := (@dateParseOwnTime_units (codeUnit ' ' :: codeUnit 'G' :: codeUnit 'M' ::
    codeUnit 'T' :: text.zone.units) text.hour text.minute text.second _).mpr
      ⟨⟨hhour, hminute, hsecond⟩, rfl⟩
  have hoffset : text.written.offset = text.zone.value := rfl
  have hclock : text.written.clock = ⟨(text.hour : ℕ), (text.minute : ℕ), (text.second : ℕ), 0⟩ :=
    rfl
  rw [dateParseOwnFormat_date, hoffset, hclock]
  unfold parseBehindYear
  rw [dateExpect_cons, bind_some, htime, bind_some]
  dsimp only
  rw [dateExpect_cons, bind_some, dateExpect_cons, bind_some, dateExpect_cons,
    bind_some, dateExpect_cons, bind_some]
  cases hkind : text.zone with
  | utc => exact ⟨_, is_ofInt (n := 0) (by decide), rfl⟩
  | zone negative hour minute name =>
    rw [hkind] at hzone
    obtain ⟨x, hx, hparse⟩ := dateParseOwnZone_units hzone
    have hutc : (OwnZone.zone negative hour minute name).isUtc = false := rfl
    refine ⟨x, hx, ?_⟩
    rw [hutc, if_neg Bool.false_ne_true, hparse]
    rfl

/-- The fields of a text that is accepted pass the range checks. -/
lemma dateParseOwnFormat_checked {text : OwnText} {result : Number}
    (h : dateParseOwnFormat text.units = some result) :
    ((text.hour : ℕ) ≤ 24 ∧ (text.minute : ℕ) ≤ 59 ∧ (text.second : ℕ) ≤ 59) ∧
      text.zone.Checked := by
  rw [dateParseOwnFormat_date] at h
  unfold parseBehindYear at h
  rw [dateExpect_cons, bind_some] at h
  obtain ⟨parsed, htime, h⟩ := bind_eq_some_iff.mp h
  obtain ⟨hrange, rfl⟩ := (dateParseOwnTime_units text.hour text.minute text.second _).mp htime
  refine ⟨hrange, ?_⟩
  dsimp only at h
  rw [dateExpect_cons, bind_some, dateExpect_cons, bind_some, dateExpect_cons,
    bind_some, dateExpect_cons, bind_some] at h
  cases hkind : text.zone with
  | utc => exact trivial
  | zone negative hour minute name =>
    have hutc : (OwnZone.zone negative hour minute name).isUtc = false := rfl
    rw [hkind, hutc, if_neg Bool.false_ne_true] at h
    obtain ⟨parsedZone, hzone, -⟩ := bind_eq_some_iff.mp h
    exact dateParseOwnZone_checked hzone

/-- What the parser reads behind the year. -/
lemma parseBehindYear_some {utcFormat : Bool} {weekday month : ℕ} {year day : ℤ} {result : Number}
    (h : parseBehindYear utcFormat weekday year month day units = some result) :
    ∃ (hour minute second : Fin 100) (zone : OwnZone), zone.isUtc = utcFormat ∧
      units = codeUnit ' ' :: (digitUnits 2 hour ++ codeUnit ':' ::
        (digitUnits 2 minute ++ codeUnit ':' :: (digitUnits 2 second ++
          codeUnit ' ' :: codeUnit 'G' :: codeUnit 'M' :: codeUnit 'T' :: zone.units))) := by
  obtain ⟨behindSpace, hspace, h⟩ := bind_eq_some_iff.mp h
  obtain ⟨⟨time, behindTime⟩, htime, h⟩ := bind_eq_some_iff.mp h
  obtain ⟨hour, minute, second, htimeUnits⟩ := dateParseOwnTime_some htime
  obtain ⟨behindBlank, hblank, h⟩ := bind_eq_some_iff.mp h
  obtain ⟨behindG, hG, h⟩ := bind_eq_some_iff.mp h
  obtain ⟨behindM, hM, h⟩ := bind_eq_some_iff.mp h
  obtain ⟨behindT, hT, h⟩ := bind_eq_some_iff.mp h
  obtain ⟨⟨offset, rest⟩, hzone, h⟩ := bind_eq_some_iff.mp h
  have hrest : rest = [] := by
    cases rest with
    | nil => rfl
    | cons _ _ => cases h
  subst hrest
  obtain ⟨zone, hkind, hzoneUnits⟩ : ∃ zone : OwnZone, zone.isUtc = utcFormat ∧
      behindT = zone.units := by
    cases utcFormat with
    | true =>
      rw [if_pos rfl] at hzone
      cases hzone
      exact ⟨.utc, rfl, rfl⟩
    | false =>
      rw [if_neg Bool.false_ne_true] at hzone
      obtain ⟨-, negative, zoneHour, zoneMinute, name, hname⟩ := dateParseOwnZone_some hzone
      exact ⟨.zone negative zoneHour zoneMinute name, rfl, hname⟩
  refine ⟨hour, minute, second, zone, hkind, ?_⟩
  rw [dateExpect_some hspace, htimeUnits, dateExpect_some hblank, dateExpect_some hG,
    dateExpect_some hM, dateExpect_some hT, hzoneUnits]

/-- What the parser reads up to the year. -/
lemma dateParseOwnFormat_behindYear {result : Number}
    (h : dateParseOwnFormat units = some result) :
    ∃ (weekday : Fin 7) (month : Fin 12) (day : Fin 100) (year : OwnYear) (utcFormat : Bool)
      (parsedYear : ℤ) (rest : List CodeUnit),
      units = dateName dateWeekdayNames (weekday : ℕ) ++
        ((if utcFormat then [codeUnit ','] else []) ++ codeUnit ' ' :: if utcFormat then
          digitUnits 2 day ++ codeUnit ' ' :: (dateName dateMonthNames (month : ℕ) ++
            codeUnit ' ' :: (year.units ++ rest))
        else dateName dateMonthNames (month : ℕ) ++ codeUnit ' ' :: (digitUnits 2 day ++
            codeUnit ' ' :: (year.units ++ rest))) ∧
      parseBehindYear utcFormat weekday parsedYear month (day : ℕ) rest = some result := by
  obtain ⟨weekday, hweekday, h⟩ := bind_eq_some_iff.mp h
  obtain ⟨hlt, hunits⟩ := dateNamedIndex_some hweekday
  dsimp only at h
  generalize hutc : comesNext ',' (units.drop 3) = utcFormat at h
  obtain ⟨behindSpace, hspace, h⟩ := bind_eq_some_iff.mp h
  obtain ⟨⟨date, behindDate⟩, hdate, h⟩ := bind_eq_some_iff.mp h
  obtain ⟨month, day, hdateUnits⟩ := dateParseOwnDate_some hdate
  rw [hdateUnits, dateParseOwnDate_units] at hdate
  cases hdate
  obtain ⟨behindSpace', hspace', h⟩ := bind_eq_some_iff.mp h
  obtain ⟨⟨parsedYear, rest⟩, hyear, h⟩ := bind_eq_some_iff.mp h
  obtain ⟨year, hyearUnits⟩ := dateParseOwnYear_some hyear
  have hcomma : units.drop 3 = (if utcFormat then [codeUnit ','] else []) ++
      if utcFormat then (units.drop 3).tail else units.drop 3 := by
    cases utcFormat with
    | true => exact comesNext_true hutc
    | false => rfl
  dsimp only at hspace'
  refine ⟨⟨weekday, hlt⟩, month, day, year, utcFormat, parsedYear, rest, ?_, h⟩
  rw [hunits, hcomma, dateExpect_some hspace, hdateUnits, dateExpect_some hspace', hyearUnits]

/-- Only texts of this realm are accepted. -/
theorem dateParseOwnFormat_some {result : Number} (h : dateParseOwnFormat units = some result) :
    ∃ text : OwnText, units = text.units := by
  obtain ⟨weekday, month, day, year, utcFormat, parsedYear, rest, hunits, hbehind⟩ :=
    dateParseOwnFormat_behindYear h
  obtain ⟨hour, minute, second, zone, hkind, hrest⟩ := parseBehindYear_some hbehind
  refine ⟨⟨weekday, month, day, year, hour, minute, second, zone⟩, ?_⟩
  rw [hunits, OwnText.units_eq, hrest, ← hkind]
  rfl

/-! ## What Date.parse accepts

The double arithmetic of the parsers gives the time value of the components they have read, or NaN
when there is none (`dateCompose_of_written`). A local time has the written components exactly when
they exist: when the day is one of its month, and the hour one of the day (`denotes_iff`). So
`Date.parse` gives the time value of a text whose fields pass its checks, of either format
(`dateParseString_iso`, `dateParseString_own`), and of nothing else (`dateParseString_some`).
-/

section

open Oseo.Library Oseo.Library.Number

variable {x y : Number} {n bound small : ℤ} {q : ℚ} {written : Written} {clock : ClockTime}

/-! ## Numbers far from zero -/

/-- A finite double at least this far from zero, or no finite double. -/
def Far (bound : ℤ) (x : Number) : Prop := ∀ a, x = .finite a → (bound : ℚ) ≤ |a.value|

lemma far_ofRat (hbound : |bound| ≤ 2 ^ 53) (h : bound ≤ |q|) : Far bound (ofRat q) := by
  intro a ha
  unfold ofRat at ha
  split at ha
  · cases ha
    exact le_abs_round hbound h
  · cases ha

lemma far_of_is (h : x.Is n) : Far |n| x := by
  intro a ha
  obtain ⟨b, hb, hbvalue⟩ := h
  have hsame := Number.finite.inj (hb.symm.trans ha)
  rw [← hsame, hbvalue, Int.cast_abs]

/-- A small summand does not bring a number near. -/
lemma Far.add_small (hx : Far bound x) (hy : y.Is n) (hsmall : |n| ≤ small)
    (hbound : |bound - small| ≤ 2 ^ 53) : Far (bound - small) (x.add y) := by
  obtain ⟨b, rfl, hb⟩ := hy
  cases x with
  | nan =>
    intro a ha
    cases ha
  | infinite negative =>
    intro a ha
    cases ha
  | finite a =>
    have hfar := hx a rfl
    have hsum : |a.value| - |b.value| ≤ |a.value + b.value| := abs_sub_abs_le_abs_add _ _
    have hn : |b.value| ≤ small := by
      rw [hb]
      exact_mod_cast hsmall
    apply far_ofRat hbound
    push_cast
    linarith

/-- TimeClip rejects what is far. -/
lemma dateTimeClip_far (hx : Far bound x) (hbound : 8640000000000000 < bound) :
    dateTimeClip x = .nan := by
  unfold dateTimeClip
  cases x with
  | nan => rfl
  | infinite negative => rfl
  | finite a =>
    have hfar := hx a rfl
    have hlimit : ((8640000000000000 : ℤ) : ℚ) < bound := by exact_mod_cast hbound
    have hexceeds : exceeds timeValueLimit (.finite a) = true := by
      unfold exceeds timeValueLimit
      rw [decide_eq_true_iff]
      push_cast at hlimit
      linarith
    rw [hexceeds, Bool.or_true, if_pos rfl]

/-! ## Composition -/

/-- Components that the parsers let through. -/
structure Written.Bounded (written : Written) : Prop where
  year : |written.date.year| ≤ 999999
  month_pos : 1 ≤ written.date.month
  month_le : written.date.month ≤ 12
  day_nonneg : 0 ≤ written.date.day
  day_le : written.date.day ≤ 99
  hour_nonneg : 0 ≤ written.clock.hour
  hour_le : written.clock.hour ≤ 24
  minute_nonneg : 0 ≤ written.clock.minute
  minute_le : written.clock.minute ≤ 59
  second_nonneg : 0 ≤ written.clock.second
  second_le : written.clock.second ≤ 59
  millisecond_nonneg : 0 ≤ written.clock.millisecond
  millisecond_le : written.clock.millisecond ≤ 999
  offset : |written.offset| ≤ 1439

lemma Written.Bounded.days_abs (h : written.Bounded) : |written.days| ≤ 2 ^ 40 := by
  have hyear := h.year
  have hmonth := h.month_pos
  have hmonth' := h.month_le
  have hday := h.day_nonneg
  have hday' := h.day_le
  have hvalid : CivilDate.Valid ⟨written.date.year, written.date.month, 1⟩ :=
    ⟨hmonth, hmonth', le_refl _, daysInMonth_pos _ _⟩
  have hdays := @days_eq ⟨written.date.year, written.date.month, 1⟩ hmonth
  have hinEra := hvalid.inEra.day_le
  have hinEra' := hvalid.inEra.day_nonneg
  have hmarch := marchYear_cases ⟨written.date.year, written.date.month, 1⟩
  unfold Written.days
  unfold CivilDate.days at hdays
  dsimp only at hdays hmarch
  rw [hdays]
  rw [abs_le] at hyear ⊢
  omega

/-- MakeDay gives the day number of the written date. -/
lemma makeDay_is (h : written.Bounded) : written.date.makeDay.Is written.days := by
  have hmonth := h.month_pos
  have hmonth' := h.month_le
  have hday := h.day_nonneg
  have hday' := h.day_le
  have hyear := h.year
  rw [abs_le] at hyear
  have hcarried : carriedMonth written.date.year (written.date.month - 1) =
      ⟨written.date.year, written.date.month, 1⟩ := by
    unfold carriedMonth carriedYear
    ext
    · dsimp only
      omega
    · dsimp only
      omega
    · rfl
  have his := dateMakeDay_is (is_ofInt (n := written.date.year) (by rw [abs_le]; omega))
    (is_ofInt (n := written.date.month - 1) (by rw [abs_le]; omega))
    (is_ofInt (n := written.date.day) (by rw [abs_le]; omega)) (by rw [abs_lt]; omega)
    (by unfold carriedYear; rw [abs_le]; omega) (by rw [abs_le]; omega)
  rw [hcarried] at his
  exact his

lemma Written.Bounded.total_bounds (h : written.Bounded) :
    0 ≤ written.clock.total ∧ written.clock.total < 90000000 := by
  obtain ⟨-, -, -, -, -, hhour, hhour', hminute, hminute', hsecond, hsecond', hmilli, hmilli', -⟩ := h
  unfold ClockTime.total msPerHour msPerMinute msPerSecond
  omega

/-- MakeTime counts the milliseconds. -/
lemma makeTime_is (h : written.Bounded) :
    (dateMakeTime (ofInt written.clock.hour) (ofInt written.clock.minute)
      (ofInt written.clock.second) (ofInt written.clock.millisecond)).Is written.clock.total := by
  obtain ⟨-, -, -, -, -, hhour, hhour', hminute, hminute', hsecond, hsecond', hmilli, hmilli', -⟩ := h
  generalize written.clock = clock at *
  have hour := is_ofInt (n := clock.hour) (by rw [abs_le]; omega)
  have minute := is_ofInt (n := clock.minute) (by rw [abs_le]; omega)
  have second := is_ofInt (n := clock.second) (by rw [abs_le]; omega)
  have millisecond := is_ofInt (n := clock.millisecond) (by rw [abs_le]; omega)
  have hhours := (dateToInteger_of_is hour).mul_int (is_ofInt (n := 3600000) (by decide))
    (by rw [abs_le]; omega)
  have hminutes := (dateToInteger_of_is minute).mul_int (is_ofInt (n := 60000) (by decide))
    (by rw [abs_le]; omega)
  have hseconds := (dateToInteger_of_is second).mul_int (is_ofInt (n := 1000) (by decide))
    (by rw [abs_le]; omega)
  have hsum := ((hhours.add_int hminutes (by rw [abs_le]; omega)).add_int hseconds
    (by rw [abs_le]; omega)).add_int (dateToInteger_of_is millisecond) (by rw [abs_le]; omega)
  unfold dateMakeTime
  rw [hour.isFinite, minute.isFinite, second.isFinite, millisecond.isFinite]
  exact hsum

/-- The time value of the written components, or NaN. -/
theorem dateCompose_of_written (h : written.Bounded) (hx : x.Is written.days)
    (hy : y.Is written.offset) :
    (TimeValue written.time → (dateCompose x written.clock y).Is written.time) ∧
      (¬TimeValue written.time → dateCompose x written.clock y = .nan) := by
  have htime := makeTime_is h
  obtain ⟨htotal, htotal'⟩ := h.total_bounds
  have hoffset := h.offset
  rw [abs_le] at hoffset
  have hminutes := (hy.mul_int (is_ofInt (n := 60000) (by decide)) (by rw [abs_le]; omega)).neg_int
    (by rw [abs_le]; omega)
  have heq : written.time = written.days * 86400000 + written.clock.total +
      -(written.offset * 60000) := by
    unfold Written.time Written.localTime msPerDay msPerMinute
    omega
  have hday : (ofInt msPerDay).Is ((86400000 : ℤ) : ℚ) := is_ofInt (by decide)
  have hmul : x.mul (ofInt msPerDay) = ofRat ((written.days * 86400000 : ℤ) : ℚ) := by
    rw [hx.mul_eq hday, ← Int.cast_mul]
  unfold dateCompose dateMakeDate
  rw [hx.isFinite, htime.isFinite, hmul]
  dsimp only
  rw [if_neg (by decide)]
  by_cases hnear : |written.days| ≤ 104000000
  · -- near the epoch all of the arithmetic is exact
    rw [abs_le] at hnear
    have hday : (ofRat ((written.days * 86400000 : ℤ) : ℚ)).Is ((written.days * 86400000 : ℤ) : ℚ) :=
      ofInt_is (by rw [abs_le]; omega)
    have hsum := hday.add_int htime (by rw [abs_le]; omega)
    have hresult := hsum.add_int hminutes (by rw [abs_le]; omega)
    rw [← heq] at hresult
    rw [hsum.isFinite, if_pos rfl]
    refine ⟨fun hvalue => dateTimeClip_of_is hvalue hresult, fun hvalue => ?_⟩
    apply dateTimeClip_far (far_of_is hresult)
    unfold TimeValue at hvalue
    omega
  · have hfar : 8985600000000000 ≤ |written.days * 86400000| := by
      rw [abs_mul]
      have habs : |(86400000 : ℤ)| = 86400000 := by decide
      rw [habs]
      omega
    have hday : Far 8985600000000000 (ofRat ((written.days * 86400000 : ℤ) : ℚ)) :=
      far_ofRat (by norm_num) (by exact_mod_cast hfar)
    have htotal_small : |written.clock.total| ≤ 90000000 := by
      rw [abs_le]
      omega
    have hminutes_small : |-(written.offset * 60000)| ≤ 90000000 := by
      rw [abs_le]
      omega
    have hsum := hday.add_small htime htotal_small (by norm_num)
    have hvalue : ¬TimeValue written.time := by
      unfold TimeValue
      rw [heq]
      rcases le_abs.mp hfar with hfar | hfar
      · have hle := le_abs_self (written.days * 86400000 + written.clock.total +
          -(written.offset * 60000))
        omega
      · have hle := neg_le_abs (written.days * 86400000 + written.clock.total +
          -(written.offset * 60000))
        omega
    refine ⟨fun hcontra => absurd hcontra hvalue, fun _ => ?_⟩
    split
    · have hresult := hsum.add_small hminutes hminutes_small (by norm_num)
      exact dateTimeClip_far hresult (by norm_num)
    · rfl

/-! ## Components of an integer time -/

lemma clock_of_total (h : clock.Valid) (days : ℤ) :
    (days * msPerDay + clock.total) / msPerDay = days ∧
      clockTime (days * msPerDay + clock.total) = clock := by
  obtain ⟨hhour, hhour', hminute, hminute', hsecond, hsecond', hmilli, hmilli'⟩ := h
  unfold clockTime ClockTime.total msPerDay msPerHour msPerMinute msPerSecond
  refine ⟨by omega, ?_⟩
  ext
  · dsimp only
    omega
  · dsimp only
    omega
  · dsimp only
    omega
  · dsimp only
    omega

lemma clockTime_valid (time : ℤ) : (clockTime time).Valid := by
  unfold clockTime msPerDay msPerHour msPerMinute msPerSecond
  refine ⟨?_, ?_, ?_, ?_, ?_, ?_, ?_, ?_⟩ <;> dsimp only <;> omega

/-- The counted day number is that of the date. -/
lemma written_days (written : Written) : written.days = written.date.days :=
  days_first written.date

/-- A local time has the written components exactly when there are such components. -/
theorem denotes_iff (written : Written) :
    written.Denotes written.localTime ↔ written.date.Valid ∧ written.clock.Valid := by
  constructor
  · rintro ⟨hdate, hclock⟩
    rw [← hdate, ← hclock]
    exact ⟨dateCivilFromDays_valid _, clockTime_valid _⟩
  · rintro ⟨hdate, hclock⟩
    obtain ⟨hdays, hsame⟩ := clock_of_total hclock written.days
    unfold Written.Denotes civilDate Written.localTime
    rw [hdays, hsame, written_days, dateCivilFromDays_days hdate]
    exact ⟨rfl, rfl⟩

/-- The components the writers take from a time value. -/
lemma dateFields_eq (ht : TimeValue n) (hx : x.Is n) : dateFields x = fieldsOf n := by
  obtain ⟨hyear, hmonth, hday, hhour, hminute, hsecond, hmillisecond⟩ := dateFields_of_is ht hx
  have hweekday : (dateFields x).weekday = (n / msPerDay + 4) % 7 := by
    have hdays : |n / msPerDay + 4| ≤ 2 ^ 53 := by
      unfold TimeValue at ht
      unfold msPerDay
      rw [abs_le] at ht ⊢
      omega
    have hmodulo := dateModulo_of_is ((dateDay_of_is ht hx).add_int (is_ofInt (n := 4) (by decide))
      hdays) (is_ofInt (n := 7) (by decide)) (by decide) (by decide)
    exact toInt64_of_is hmodulo
  unfold fieldsOf civilDate clockTime
  rw [← hyear, ← hday, ← hweekday, ← hhour, ← hminute, ← hsecond, ← hmillisecond, ← hmonth]

end

/-! ## Texts -/

variable {n : ℤ} {x : Number}

/-! ## The two formats -/

/-- A text of the Date Time String Format begins with a digit or a sign. -/
def startsYear (unit : CodeUnit) : Bool :=
  between '0' '9' unit || unit = codeUnit '+' || unit = codeUnit '-'

lemma iso_head (text : IsoText) : ∃ unit rest, text.units = unit :: rest ∧ startsYear unit := by
  unfold IsoText.units
  cases text.year with
  | basic year =>
    cases hunits : digitUnits 4 year with
    | nil =>
      have hlength := digitUnits_length 4 year
      rw [hunits] at hlength
      cases hlength
    | cons unit rest =>
      have hunit : between '0' '9' unit = true := by
        apply digitUnits_between
        rw [hunits]
        exact List.mem_cons_self
      refine ⟨unit, rest ++ (text.date.units ++ text.timeUnits), ?_, ?_⟩
      · show digitUnits 4 year ++ _ = _
        rw [hunits]
        rfl
      · unfold startsYear
        rw [hunit, Bool.true_or, Bool.true_or]
  | expanded negative year =>
    refine ⟨_, _, rfl, ?_⟩
    revert negative
    decide

lemma own_head (text : OwnText) : ∃ unit rest, text.units = unit :: rest ∧ ¬startsYear unit := by
  have hnames : ∀ weekday : Fin 7, dateName dateWeekdayNames (weekday : ℕ) =
      (dateName dateWeekdayNames (weekday : ℕ)).headD 0 ::
        (dateName dateWeekdayNames (weekday : ℕ)).tail ∧
      ¬startsYear ((dateName dateWeekdayNames (weekday : ℕ)).headD 0) := by decide
  obtain ⟨hname, hunit⟩ := hnames text.weekday
  refine ⟨_, (dateName dateWeekdayNames (text.weekday : ℕ)).tail ++ text.behindWeekday, ?_, hunit⟩
  rw [text.units_eq, ← List.cons_append, ← hname]

/-- No text is of both formats. -/
lemma iso_ne_own (iso : IsoText) (own : OwnText) : iso.units ≠ own.units := by
  intro heq
  obtain ⟨unit, rest, hunits, hstarts⟩ := iso_head iso
  obtain ⟨unit', rest', hunits', hstarts'⟩ := own_head own
  rw [heq, hunits'] at hunits
  rw [(List.cons.inj hunits).1] at hstarts'
  exact hstarts' hstarts

lemma dateParseIso_own (text : OwnText) : dateParseIso text.units = none := by
  cases hparse : dateParseIso text.units with
  | none => rfl
  | some result =>
    obtain ⟨iso, heq⟩ := dateParseIso_some hparse
    exact absurd heq.symm (iso_ne_own iso text)

lemma dateParseOwnFormat_iso (text : IsoText) : dateParseOwnFormat text.units = none := by
  cases hparse : dateParseOwnFormat text.units with
  | none => rfl
  | some result =>
    obtain ⟨own, heq⟩ := dateParseOwnFormat_some hparse
    exact absurd heq (iso_ne_own text own)

lemma nan_not_is : ¬Number.nan.Is n := by
  rintro ⟨a, ha, -⟩
  cases ha

/-! ## Texts of the Date Time String Format -/

lemma IsoText.Checked.bounded {text : IsoText} (h : text.Checked) : text.written.Bounded := by
  obtain ⟨-, ⟨hmonth, hmonth', hday, hday'⟩, ⟨hhour, hminute, hsecond, -⟩, hoffset⟩ := h
  have hyear : |text.year.value| ≤ 999999 := by
    cases text.year with
    | basic year =>
      have hlt := year.isLt
      unfold IsoYear.value
      dsimp only
      rw [abs_le]
      omega
    | expanded negative year =>
      have hlt := year.isLt
      unfold IsoYear.value
      rw [abs_le]
      split <;> omega
  have hclock : 0 ≤ text.written.clock.hour ∧ 0 ≤ text.written.clock.minute ∧
      0 ≤ text.written.clock.second ∧ 0 ≤ text.written.clock.millisecond ∧
      text.written.clock.millisecond ≤ 999 := by
    unfold IsoText.written
    dsimp only
    split
    · decide
    · next time _ =>
      unfold IsoTime.clock IsoSeconds.second IsoSeconds.millisecond
      dsimp only
      cases time.seconds with
      | toMinute => exact ⟨by omega, by omega, le_refl _, le_refl _, by decide⟩
      | toSecond second =>
        dsimp only
        omega
      | toMillisecond second millisecond =>
        dsimp only
        omega
  have hzone : |text.written.offset| ≤ 1439 := by
    unfold IsoText.written
    dsimp only
    split
    · decide
    · next time htime =>
      have hchecked := hoffset time htime
      unfold IsoOffset.value
      split
      · next negative hour minute hkind =>
        rw [hkind] at hchecked
        obtain ⟨hhour, hminute⟩ := hchecked
        unfold offsetMinutes
        rw [abs_le]
        split <;> omega
      · decide
  obtain ⟨hhour', hminute', hsecond', hmilli, hmilli'⟩ := hclock
  exact ⟨hyear, hmonth, hmonth', by dsimp only [IsoText.written]; omega,
    by dsimp only [IsoText.written]; omega, hhour', hhour, hminute', hminute, hsecond', hsecond,
    hmilli, hmilli', hzone⟩

/-- A text that passes the checks has the time value of its components, or none. -/
lemma dateParseString_checked {text : IsoText} (h : text.Checked) :
    (TimeValue text.written.time → (dateParseString text.units).Is text.written.time) ∧
      (¬TimeValue text.written.time → dateParseString text.units = .nan) := by
  obtain ⟨x, hx, hparse⟩ := dateParseIso_units h
  have hcompose := dateCompose_of_written h.bounded (makeDay_is h.bounded) hx
  unfold dateParseString
  rw [hparse]
  exact hcompose

theorem dateParseString_iso (text : IsoText) :
    (dateParseString text.units).Is n ↔
      text.Checked ∧ TimeValue text.written.time ∧ n = text.written.time := by
  constructor
  · intro his
    have hchecked : text.Checked := by
      unfold dateParseString at his
      cases hparse : dateParseIso text.units with
      | some result => exact dateParseIso_checked hparse
      | none =>
        rw [hparse, dateParseOwnFormat_iso] at his
        exact absurd his nan_not_is
    obtain ⟨hvalue, hnan⟩ := dateParseString_checked hchecked
    by_cases htime : TimeValue text.written.time
    · have hsame := his.unique (hvalue htime)
      exact ⟨hchecked, htime, by exact_mod_cast hsame⟩
    · rw [hnan htime] at his
      exact absurd his nan_not_is
  · rintro ⟨hchecked, htime, rfl⟩
    exact (dateParseString_checked hchecked).1 htime

/-! ## Texts of this realm -/

/-- The range checks of the second parser. -/
def OwnText.RangeChecked (text : OwnText) : Prop :=
  ((text.hour : ℕ) ≤ 24 ∧ (text.minute : ℕ) ≤ 59 ∧ (text.second : ℕ) ≤ 59) ∧ text.zone.Checked

lemma OwnText.RangeChecked.bounded {text : OwnText} (h : text.RangeChecked) :
    text.written.Bounded := by
  obtain ⟨⟨hhour, hminute, hsecond⟩, hzone⟩ := h
  have hfits : text.year.digits < 10 ^ 6 :=
    Nat.lt_of_lt_of_le text.year.fits (Nat.pow_le_pow_right (by decide) text.year.most)
  have hyear : |text.year.value| ≤ 999999 := by
    unfold OwnYear.value
    rw [abs_le]
    split <;> omega
  have hoffset : |text.zone.value| ≤ 1439 := by
    cases hkind : text.zone with
    | utc => decide
    | zone negative hour minute name =>
      rw [hkind] at hzone
      obtain ⟨hhour', hminute'⟩ := hzone
      unfold OwnZone.value offsetMinutes
      dsimp only
      rw [abs_le]
      split <;> omega
  exact ⟨hyear, by dsimp only [OwnText.written]; omega, by dsimp only [OwnText.written]; omega,
    by dsimp only [OwnText.written]; omega, by dsimp only [OwnText.written]; omega,
    by dsimp only [OwnText.written]; omega, by dsimp only [OwnText.written]; omega,
    by dsimp only [OwnText.written]; omega, by dsimp only [OwnText.written]; omega,
    by dsimp only [OwnText.written]; omega, by dsimp only [OwnText.written]; omega,
    le_refl _, by dsimp only [OwnText.written]; omega, hoffset⟩

/-- The weekday is compared with that of the counted day. -/
lemma dateComposeOwn_eq {weekday month : ℕ} {year day days : ℤ} {clock : ClockTime}
    (hday : (dateMakeDay (ofInt year) (ofInt month) (ofInt day)).Is days)
    (hdays : |days| ≤ 2 ^ 40) :
    dateComposeOwn weekday year month day clock x = if (days + 4) % 7 ≠ weekday then none
      else some (dateCompose (dateMakeDay (ofInt year) (ofInt month) (ofInt day)) clock x) := by
  have hbound : |days + 4| ≤ 2 ^ 53 := by
    rw [abs_le] at hdays ⊢
    omega
  have hmodulo := toInt64_of_is (dateModulo_of_is (hday.add_int (is_ofInt (n := 4) (by decide))
    hbound) (is_ofInt (n := 7) (by decide)) (by decide) (by decide))
  unfold dateComposeOwn
  generalize dateMakeDay (ofInt year) (ofInt month) (ofInt day) = dayNumber at *
  obtain ⟨a, rfl, -⟩ := hday
  dsimp only
  rw [hmodulo]

lemma dateParseString_rangeChecked {text : OwnText} (h : text.RangeChecked) :
    (TimeValue text.written.time ∧ (text.written.days + 4) % 7 = (text.weekday : ℕ) →
        (dateParseString text.units).Is text.written.time) ∧
      (¬(TimeValue text.written.time ∧ (text.written.days + 4) % 7 = (text.weekday : ℕ)) →
        dateParseString text.units = .nan) := by
  obtain ⟨⟨hhour, hminute, hsecond⟩, hzone⟩ := h
  obtain ⟨x, hx, hparse⟩ := dateParseOwnFormat_units hhour hminute hsecond hzone
  have hbounded : text.written.Bounded := OwnText.RangeChecked.bounded ⟨⟨hhour, hminute, hsecond⟩,
    hzone⟩
  have hday := makeDay_is hbounded
  obtain ⟨hvalue, hnan⟩ := dateCompose_of_written hbounded hday hx
  have hmonth : text.written.date.makeDay =
      dateMakeDay (ofInt text.year.value) (ofInt (text.month : ℕ)) (ofInt (text.day : ℕ)) := by
    unfold CivilDate.makeDay OwnText.written
    rw [add_sub_cancel_right]
  rw [hmonth] at hday hvalue hnan
  unfold dateParseString
  rw [dateParseIso_own, hparse, dateComposeOwn_eq hday hbounded.days_abs]
  by_cases hweekday : (text.written.days + 4) % 7 = (text.weekday : ℕ)
  · rw [if_neg (not_not_intro hweekday), Option.getD_some]
    refine ⟨fun htime => hvalue htime.1, fun htime => ?_⟩
    apply hnan
    intro hcontra
    exact htime ⟨hcontra, hweekday⟩
  · rw [if_pos hweekday]
    exact ⟨fun htime => absurd htime.2 hweekday, fun _ => rfl⟩

theorem dateParseString_own (text : OwnText) :
    (dateParseString text.units).Is n ↔
      text.Checked ∧ TimeValue text.written.time ∧ n = text.written.time := by
  constructor
  · intro his
    have hchecked : text.RangeChecked := by
      unfold dateParseString at his
      rw [dateParseIso_own] at his
      cases hparse : dateParseOwnFormat text.units with
      | some result => exact dateParseOwnFormat_checked hparse
      | none =>
        rw [hparse] at his
        exact absurd his nan_not_is
    obtain ⟨hvalue, hnan⟩ := dateParseString_rangeChecked hchecked
    by_cases htime : TimeValue text.written.time ∧
        (text.written.days + 4) % 7 = (text.weekday : ℕ)
    · obtain ⟨⟨hhour, hminute, hsecond⟩, hzone⟩ := hchecked
      have hsame := his.unique (hvalue htime)
      exact ⟨⟨hhour, hminute, hsecond, hzone, htime.2⟩, htime.1, by exact_mod_cast hsame⟩
    · rw [hnan htime] at his
      exact absurd his nan_not_is
  · rintro ⟨hchecked, htime, rfl⟩
    exact (dateParseString_rangeChecked ⟨⟨hchecked.hour, hchecked.minute, hchecked.second⟩,
      hchecked.zone⟩).1 ⟨htime, hchecked.weekday⟩

/-- Only texts of the two formats have a time value. -/
theorem dateParseString_some (h : (dateParseString units).Is n) :
    (∃ text : IsoText, units = text.units) ∨ ∃ text : OwnText, units = text.units := by
  unfold dateParseString at h
  cases hiso : dateParseIso units with
  | some result => exact .inl (dateParseIso_some hiso)
  | none =>
    rw [hiso] at h
    cases hown : dateParseOwnFormat units with
    | some result => exact .inr (dateParseOwnFormat_some hown)
    | none =>
      rw [hown] at h
      exact absurd h nan_not_is

end Oseo.DateTime
