import Mathlib.Algebra.Group.Nat.Defs
import Mathlib.Data.List.Basic
import FilmReport.Calendar.Date
import FilmReport.Calendar.Instant
import FilmReport.Proofs.Decimal.Numeral

/-!
Days and instants. Years are counted from March, so that a leap day is the last one of its year; then
the day of an era settles the year (`yearOfEra_spec`), the day of the year the month, and the date of
a number of days exists (`Date.exists_ofDays`) and gives that number back (`Date.toDays_ofDays`). In
the years from 0 to 9999 every field of an instant has a fixed number of digits; so what is written
reads as a date and a time (`Instant.isDateTime_toText`), and the fields can be read off it, whatever
stands between them (`Instant.eq_of_map_toText`).
-/

set_option autoImplicit false
set_option relaxedAutoImplicit false

namespace FilmReport.Calendar

/-- The days of an era of 400 years before one of its years. -/
def daysBefore (year : Int) : Int :=
  365 * year + year / 4 - year / 100

/-- The year of an era in which a day of the era is. -/
def yearOfEra (day : Int) : Int :=
  (day - day / 1460 + day / 36524 - day / 146096) / 365

/-- The days of a year before a month of it. -/
def daysBeforeMonth (month : Int) : Int :=
  (153 * month + 2) / 5

/-- A year has a day more if it ends in a leap year. -/
theorem daysBefore_succ (year : Int) :
    daysBefore (year + 1) = daysBefore year + 365 +
      (if (year + 1) % 4 = 0 then 1 else 0) - (if (year + 1) % 100 = 0 then 1 else 0) := by
  have hfour : (year + 1) / 4 = year / 4 + (if (year + 1) % 4 = 0 then 1 else 0) := by
    split <;> omega
  have hhundred : (year + 1) / 100 = year / 100 + (if (year + 1) % 100 = 0 then 1 else 0) := by
    split <;> omega
  rw [daysBefore, daysBefore, hfour, hhundred]
  omega

theorem isLeap_of_long {year : Int}
    (h : daysBefore year + 366 ≤ daysBefore (year + 1) ∨ year = 399) :
    isLeap (year + 1) = true := by
  rw [daysBefore_succ] at h
  simp only [isLeap, Bool.and_eq_true, decide_eq_true_eq, Bool.or_eq_true]
  split at h <;> split at h <;> omega

/-- Leap years come again with each era. -/
theorem isLeap_add_era (year era : Int) : isLeap (year + era * 400) = isLeap year := by
  have hfour : (year + era * 400) % 4 = year % 4 := by omega
  have hhundred : (year + era * 400) % 100 = year % 100 := by omega
  have heras : (year + era * 400) % 400 = year % 400 := by omega
  rw [isLeap, isLeap, hfour, hhundred, heras]

/-- The year of a day has begun and has not ended; no year of the era comes after the last one. -/
theorem yearOfEra_spec {day : Int} (hfirst : 0 ≤ day) (hlast : day < 146097) :
    (0 ≤ yearOfEra day ∧ yearOfEra day < 400) ∧ daysBefore (yearOfEra day) ≤ day ∧
      (day < daysBefore (yearOfEra day + 1) ∨ yearOfEra day = 399) := by
  -- the last day of an era counts to its last century and to its last year
  obtain ⟨century, hcentury⟩ : ∃ century, day / 36524 - day / 146096 = century := ⟨_, rfl⟩
  obtain ⟨year, hyear⟩ : ∃ year, yearOfEra day = year := ⟨_, rfl⟩
  rw [hyear]
  rw [yearOfEra, Int.add_sub_assoc, hcentury] at hyear
  have hbegun : 36524 * century ≤ day ∧ 25 * century ≤ day / 1460 := by omega
  have hended : day < 36524 * (century + 1) ∨ century = 3 := by omega
  have hrange : 0 ≤ century ∧ century ≤ 3 := by omega
  clear hcentury
  have hcycle : 4 * (day / 1460) - 1 ≤ year ∧ year ≤ 4 * (day / 1460) + 3 := by omega
  have hyears : 100 * century ≤ year ∧ year ≤ 100 * century + 99 := by omega
  have hdays : 365 * year ≤ day - day / 1460 + century ∧
      day - day / 1460 + century < 365 * (year + 1) := by omega
  have hhundred : year / 100 = century := by omega
  have hfour : year / 4 ≤ day / 1460 ∧ day / 1460 ≤ (year + 1) / 4 := by omega
  clear hyear hcycle
  refine ⟨by omega, ?_, ?_⟩
  · rw [daysBefore, hhundred]
    omega
  · by_cases hcomplete : year = 100 * century + 99
    · have hnext : (year + 1) / 4 = 25 * (century + 1) ∧ (year + 1) / 100 = century + 1 := by omega
      rw [daysBefore, hnext.1, hnext.2]
      omega
    · have hnext : (year + 1) / 100 = century := by omega
      rw [daysBefore, hnext]
      omega

/-- A number of days as a day of a year of an era, and its date read off these. -/
theorem exists_ofDays_eq (days : Int) : ∃ era year day month : Int,
    days + 719468 = era * 146097 + daysBefore year + day ∧ (0 ≤ year ∧ year < 400) ∧
      (0 ≤ day ∧ day ≤ 365) ∧ (day = 365 → isLeap (year + 1) = true) ∧
      month = (5 * day + 2) / 153 ∧
      Date.ofDays days =
        ⟨if (if month < 10 then month + 3 else month - 9) ≤ 2 then year + era * 400 + 1
            else year + era * 400,
          (if month < 10 then month + 3 else month - 9).toNat,
          (day - daysBeforeMonth month + 1).toNat⟩ := by
  obtain ⟨hyear, hbegun, hended⟩ :=
    @yearOfEra_spec ((days + 719468) % 146097) (by omega) (by omega)
  refine ⟨(days + 719468) / 146097, yearOfEra ((days + 719468) % 146097),
    (days + 719468) % 146097 - daysBefore (yearOfEra ((days + 719468) % 146097)), _, by omega,
    hyear, ⟨by omega, ?_⟩, fun hlong => isLeap_of_long ?_, rfl, rfl⟩
  · rcases hended with hended | hended
    · have hnext := daysBefore_succ (yearOfEra ((days + 719468) % 146097))
      split at hnext <;> omega
    · have hbefore : daysBefore 399 = 145731 := rfl
      rw [hended, hbefore]
      omega
  · omega

/-- The months from March to January are as long as the days before them tell. -/
theorem daysInMonth_eq (year : Int) {month : Int} (hfirst : 0 ≤ month) (hlast : month ≤ 10) :
    (daysInMonth year (if month < 10 then month + 3 else month - 9).toNat : Int) =
      daysBeforeMonth (month + 1) - daysBeforeMonth month := by
  obtain rfl | rfl | rfl | rfl | rfl | rfl | rfl | rfl | rfl | rfl | rfl :
      month = 0 ∨ month = 1 ∨ month = 2 ∨ month = 3 ∨ month = 4 ∨ month = 5 ∨ month = 6 ∨
        month = 7 ∨ month = 8 ∨ month = 9 ∨ month = 10 := by
    omega
  all_goals rfl

/-- The date of a number of days is one of the calendar. -/
theorem Date.exists_ofDays (days : Int) : (Date.ofDays days).exists = true := by
  obtain ⟨era, year, day, month, -, -, ⟨hfirst, hlast⟩, hleap, hmonth, hdate⟩ :=
    exists_ofDays_eq days
  have hrange : 0 ≤ month ∧ month ≤ 11 := by omega
  have hbegun : daysBeforeMonth month ≤ day := by
    rw [daysBeforeMonth]
    omega
  rw [hdate, Date.exists, Bool.and_eq_true, Bool.and_eq_true, Bool.and_eq_true, decide_eq_true_eq,
    decide_eq_true_eq, decide_eq_true_eq, decide_eq_true_eq]
  dsimp only
  refine ⟨⟨⟨by split <;> omega, by split <;> omega⟩, by omega⟩, ?_⟩
  by_cases hfebruary : month = 11
  · subst hfebruary
    have hbefore : daysBeforeMonth 11 = 337 := rfl
    change (day - daysBeforeMonth 11 + 1).toNat ≤ daysInMonth (year + era * 400 + 1) 2
    have hera : isLeap (year + era * 400 + 1) = isLeap (year + 1) := by
      rw [Int.add_right_comm, isLeap_add_era]
    rw [hbefore, daysInMonth, if_pos rfl, hera]
    by_cases hlong : day = 365
    · rw [hleap hlong, if_pos rfl]
      omega
    · split <;> omega
  · have hlength := daysInMonth_eq
      (if (if month < 10 then month + 3 else month - 9) ≤ 2 then year + era * 400 + 1
        else year + era * 400) hrange.1 (by omega)
    have hended : day < daysBeforeMonth (month + 1) := by
      rw [daysBeforeMonth]
      omega
    omega

/-- The date of a number of days gives the number back. -/
theorem Date.toDays_ofDays (days : Int) : (Date.ofDays days).toDays = days := by
  obtain ⟨era, year, day, month, hdays, hyear, ⟨hfirst, hlast⟩, -, hmonth, hdate⟩ :=
    exists_ofDays_eq days
  have hrange : 0 ≤ month ∧ month ≤ 11 := by omega
  have hbegun : daysBeforeMonth month ≤ day := by
    rw [daysBeforeMonth]
    omega
  have hday : ((day - daysBeforeMonth month + 1).toNat : Int) =
      day - daysBeforeMonth month + 1 := by
    omega
  have hera : (year + era * 400) / 400 = era := by omega
  rw [hdate]
  by_cases hmarch : month < 10
  · have hlate : ¬ month + 3 ≤ 2 := by omega
    have hnat : ¬ (month + 3).toNat ≤ 2 := by omega
    have hback : (((month + 3).toNat : Int) + 9) % 12 = month := by omega
    simp only [Date.toDays, hmarch, if_true, hlate, if_false, hnat, hera, hday, hback]
    rw [daysBefore] at hdays
    rw [daysBeforeMonth]
    omega
  · have hearly : month - 9 ≤ 2 := by omega
    have hnat : (month - 9).toNat ≤ 2 := by omega
    have hback : (((month - 9).toNat : Int) + 9) % 12 = month := by omega
    simp only [Date.toDays, hmarch, if_false, hearly, if_true, hnat, hday, hback,
      Int.add_sub_cancel, hera]
    rw [daysBefore] at hdays
    rw [daysBeforeMonth]
    omega

namespace Instant

theorem toList_padded (width n : Nat) :
    (padded width n).toList =
      List.replicate (width - (Nat.toDigits 10 n).length) '0' ++ Nat.toDigits 10 n := by
  have hrepr : Nat.repr n = String.ofList (Nat.toDigits 10 n) := rfl
  rw [padded, hrepr, String.toList_append, String.toList_ofList, String.toList_ofList,
    ← String.length_toList, String.toList_ofList]

theorem isDigit_of_mem_padded {width n : Nat} {c : Char} (hc : c ∈ (padded width n).toList) :
    isDigit c = true := by
  rw [toList_padded, List.mem_append] at hc
  rcases hc with hzero | hdigit
  · rw [List.eq_of_mem_replicate hzero]
    rfl
  · exact Nat.isDigit_of_mem_toDigits (by omega) (Nat.le_refl 10) hdigit

theorem length_padded {width n : Nat} (hwidth : 0 < width) (hn : n < 10 ^ width) :
    (padded width n).toList.length = width := by
  have hle : (Nat.toDigits 10 n).length ≤ width :=
    (Nat.length_toDigits_le_iff (by decide) hwidth).2 hn
  rw [toList_padded, List.length_append, List.length_replicate]
  omega

theorem digitsValue_padded (width n : Nat) : digitsValue (padded width n).toList = n := by
  rw [toList_padded, digitsValue_append, digitsValue_replicate_zero, Nat.zero_mul, Nat.zero_add,
    digitsValue_toDigits]

/-- A number in so many digits is read back from the front of a list. -/
theorem digits?_padded {width n : Nat} (hwidth : 0 < width) (hn : n < 10 ^ width)
    (rest : List Char) : digits? width ((padded width n).toList ++ rest) = some (n, rest) := by
  have hlength := length_padded hwidth hn
  have hdigits : (padded width n).toList.all isDigit = true :=
    List.all_eq_true.2 fun c hc => isDigit_of_mem_padded hc
  rw [digits?, List.take_left' hlength, List.drop_left' hlength, hlength, hdigits,
    digitsValue_padded]
  simp

/-- Two numbers in so many digits at the front of two lists are the same if the lists are. -/
theorem padded_append_inj {width n m : Nat} {rest rest' : List Char} (hwidth : 0 < width)
    (hn : n < 10 ^ width) (hm : m < 10 ^ width)
    (h : (padded width n).toList ++ rest = (padded width m).toList ++ rest') :
    n = m ∧ rest = rest' := by
  have hread := digits?_padded hwidth hn rest
  rw [h, digits?_padded hwidth hm] at hread
  obtain ⟨hnumber, hrest⟩ := Prod.mk.inj (Option.some.inj hread)
  exact ⟨hnumber.symm, hrest.symm⟩

/-- The day of an instant. -/
def date (t : Instant) : Date :=
  Date.ofDays (t.millis / 86400000)

/-- The milliseconds since the beginning of the day of an instant. -/
def timeOfDay (t : Instant) : Nat :=
  (t.millis % 86400000).toNat

/-- The year of an instant is one from 0 to 9999. -/
def HasPlainYear (t : Instant) : Prop :=
  0 ≤ t.date.year ∧ t.date.year ≤ 9999

theorem timeOfDay_lt (t : Instant) : t.timeOfDay < 86400000 := by
  rw [timeOfDay]
  omega

theorem date_lt (t : Instant) : t.date.month < 10 ^ 2 ∧ t.date.day < 10 ^ 2 := by
  have hexists := Date.exists_ofDays (t.millis / 86400000)
  rw [← date, Date.exists, Bool.and_eq_true, Bool.and_eq_true, Bool.and_eq_true,
    decide_eq_true_eq, decide_eq_true_eq, decide_eq_true_eq, decide_eq_true_eq] at hexists
  have hdays : daysInMonth t.date.year t.date.month ≤ 31 := by
    rw [daysInMonth]
    split
    · split <;> decide
    · split <;> decide
  omega

/-- An instant is its day and its time of day. -/
theorem eq_of_date_of_timeOfDay {t u : Instant} (hdate : t.date = u.date)
    (htime : t.timeOfDay = u.timeOfDay) : t = u := by
  have hdays : t.millis / 86400000 = u.millis / 86400000 := by
    have h := congrArg Date.toDays hdate
    rwa [date, date, Date.toDays_ofDays, Date.toDays_ofDays] at h
  rw [timeOfDay, timeOfDay] at htime
  rcases t with ⟨t⟩
  rcases u with ⟨u⟩
  dsimp only at hdays htime
  congr 1
  omega

/-- The fields of an instant, with what stands between them. -/
theorem toList_toText {t : Instant} (h : t.HasPlainYear) :
    t.toText.toList = (padded 4 t.date.year.toNat).toList ++ '-' ::
      ((padded 2 t.date.month).toList ++ '-' :: ((padded 2 t.date.day).toList ++ 'T' ::
      ((padded 2 (t.timeOfDay / 3600000)).toList ++ ':' ::
      ((padded 2 (t.timeOfDay / 60000 % 60)).toList ++ ':' ::
      ((padded 2 (t.timeOfDay / 1000 % 60)).toList ++ '.' ::
      ((padded 3 (t.timeOfDay % 1000)).toList ++ ['Z'])))))) := by
  have hyear : yearText t.date.year = padded 4 t.date.year.toNat := if_pos h
  have hmarks : "-".toList = ['-'] ∧ "T".toList = ['T'] ∧ ":".toList = [':'] ∧
      ".".toList = ['.'] ∧ "Z".toList = ['Z'] :=
    ⟨rfl, rfl, rfl, rfl, rfl⟩
  rw [toText, ← date, ← timeOfDay, hyear]
  simp only [String.toList_append, List.append_assoc, hmarks, List.cons_append, List.nil_append]

theorem isDigit_or_mem_of_mem_toText {t : Instant} (h : t.HasPlainYear) {c : Char}
    (hc : c ∈ t.toText.toList) : isDigit c = true ∨ c ∈ ['-', 'T', ':', '.', 'Z'] := by
  rw [toList_toText h] at hc
  simp only [List.mem_append, List.mem_cons, List.not_mem_nil, or_false] at hc
  rcases hc with hc | rfl | hc | rfl | hc | rfl | hc | rfl | hc | rfl | hc | rfl | hc | rfl
  all_goals first
    | exact .inl (isDigit_of_mem_padded hc)
    | exact .inr (by decide)

theorem isFractionEnd_padded {width n : Nat} (hwidth : 0 < width) (hn : n < 10 ^ width) :
    isFractionEnd ((padded width n).toList ++ ['Z']) = true := by
  have hdigits : ∀ c ∈ (padded width n).toList, isDigit c = true :=
    fun c hc => isDigit_of_mem_padded hc
  have hsome : (padded width n).toList ≠ [] := by
    intro hnil
    have hlength := length_padded hwidth hn
    rw [hnil, List.length_nil] at hlength
    omega
  rw [isFractionEnd, List.takeWhile_append_of_pos hdigits, List.dropWhile_append_of_pos hdigits]
  simp [hsome]
  decide

/-- An instant of a plain year is written as a date and a time. -/
theorem isDateTime_toText {t : Instant} (h : t.HasPlainYear) : isDateTime t.toText = true := by
  obtain ⟨hmonth, hday⟩ := t.date_lt
  have htime := t.timeOfDay_lt
  have hyear : t.date.year.toNat < 10 ^ 4 := by
    have hlast := h.2
    omega
  have hdate : date? t.toText.toList = some (t.date, 'T' ::
      ((padded 2 (t.timeOfDay / 3600000)).toList ++ ':' ::
      ((padded 2 (t.timeOfDay / 60000 % 60)).toList ++ ':' ::
      ((padded 2 (t.timeOfDay / 1000 % 60)).toList ++ '.' ::
      ((padded 3 (t.timeOfDay % 1000)).toList ++ ['Z']))))) := by
    have hback : ((t.date.year.toNat : Int)) = t.date.year := Int.toNat_of_nonneg h.1
    rw [toList_toText h, date?, dateFields?]
    simp only [digits?_padded (Nat.succ_pos _) hyear, digits?_padded (Nat.succ_pos _) hmonth,
      digits?_padded (Nat.succ_pos _) hday, hback]
    exact if_pos (Date.exists_ofDays _)
  have hhour : t.timeOfDay / 3600000 < 24 := by omega
  have hminute : t.timeOfDay / 60000 % 60 < 60 := by omega
  have hsecond : t.timeOfDay / 1000 % 60 < 60 := by omega
  have hmillis : t.timeOfDay % 1000 < 10 ^ 3 := by omega
  have hread : ∀ n < 60, ∀ rest, digits? 2 ((padded 2 n).toList ++ rest) = some (n, rest) :=
    fun n hn rest => digits?_padded (by decide) (Nat.lt_trans hn (by decide)) rest
  rw [isDateTime, hdate]
  simp only [isTimeEnd, hread _ (Nat.lt_trans hhour (by decide)), hread _ hminute, hread _ hsecond,
    isFractionEnd_padded (Nat.succ_pos _) hmillis, hhour, hminute, hsecond, decide_true,
    Bool.and_self]

/-- A time of day is its hours, minutes, seconds and milliseconds. -/
theorem eq_of_fields {m n : Nat} (hhours : m / 3600000 = n / 3600000)
    (hminutes : m / 60000 % 60 = n / 60000 % 60) (hseconds : m / 1000 % 60 = n / 1000 % 60)
    (hmillis : m % 1000 = n % 1000) : m = n := by
  omega

/-- Two instants of plain years that are written alike when digits stay what they are are the same
instant. -/
theorem eq_of_map_toText {f : Char → Char} (hf : ∀ c, isDigit c = true → f c = c) {t u : Instant}
    (ht : t.HasPlainYear) (hu : u.HasPlainYear)
    (h : t.toText.toList.map f = u.toText.toList.map f) : t = u := by
  have hmap : ∀ width n, (padded width n).toList.map f = (padded width n).toList := fun width n =>
    (List.map_congr_left fun c hc => hf c (isDigit_of_mem_padded hc)).trans (List.map_id' _)
  obtain ⟨hmonth, hday⟩ := t.date_lt
  obtain ⟨hmonth', hday'⟩ := u.date_lt
  have htime := t.timeOfDay_lt
  have htime' := u.timeOfDay_lt
  rw [toList_toText ht, toList_toText hu] at h
  simp only [List.map_append, List.map_cons, hmap] at h
  obtain ⟨hyears, h⟩ := padded_append_inj (Nat.succ_pos _) (by have := ht.2; omega)
    (by have := hu.2; omega) h
  obtain ⟨hmonths, h⟩ := padded_append_inj (Nat.succ_pos _) hmonth hmonth' (List.cons.inj h).2
  obtain ⟨hdays, h⟩ := padded_append_inj (Nat.succ_pos _) hday hday' (List.cons.inj h).2
  obtain ⟨hhours, h⟩ := padded_append_inj (Nat.succ_pos _) (by omega) (by omega) (List.cons.inj h).2
  obtain ⟨hminutes, h⟩ := padded_append_inj (Nat.succ_pos _) (by omega) (by omega)
    (List.cons.inj h).2
  obtain ⟨hseconds, h⟩ := padded_append_inj (Nat.succ_pos _) (by omega) (by omega)
    (List.cons.inj h).2
  obtain ⟨hmillis, -⟩ := padded_append_inj (Nat.succ_pos _) (by omega) (by omega)
    (List.cons.inj h).2
  refine eq_of_date_of_timeOfDay ?_ (eq_of_fields hhours hminutes hseconds hmillis)
  have hyear : t.date.year = u.date.year := by
    have hfirst := ht.1
    have hfirst' := hu.1
    omega
  calc t.date = ⟨t.date.year, t.date.month, t.date.day⟩ := rfl
    _ = ⟨u.date.year, u.date.month, u.date.day⟩ := by rw [hyear, hmonths, hdays]
    _ = u.date := rfl

end Instant
end FilmReport.Calendar
