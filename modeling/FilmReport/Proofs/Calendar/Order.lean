import Mathlib.Data.String.Basic
import FilmReport.Proofs.Calendar.Instant
import FilmReport.Text.Order

/-!
Dates as texts. The fields of a date have a fixed number of digits and stand from the greatest to
the smallest, so that texts of dates come in the order of their days, whether they are compared by
code points (`lt_iff_of_day?`) or by UTF-16 units (`unitsBefore_iff_of_day?`).
-/

set_option autoImplicit false
set_option relaxedAutoImplicit false

namespace FilmReport.Calendar

namespace Date

/-- The year of a date, counted from March. -/
def marchYear (d : Date) : Int :=
  if d.month ≤ 2 then d.year - 1 else d.year

/-- The month of a date, counted from March. -/
def marchMonth (d : Date) : Int :=
  (d.month + 9) % 12

/-- The days before a year, counted from March of the year 0. -/
def daysBeforeYear (year : Int) : Int :=
  daysBefore year + year / 400

variable {d e : Date}

theorem bounds (h : d.exists = true) : (1 ≤ d.month ∧ d.month ≤ 12) ∧
    1 ≤ d.day ∧ d.day ≤ daysInMonth d.year d.month := by
  rw [Date.exists, Bool.and_eq_true, Bool.and_eq_true, Bool.and_eq_true, decide_eq_true_eq,
    decide_eq_true_eq, decide_eq_true_eq, decide_eq_true_eq] at h
  exact ⟨h.1.1, h.1.2, h.2⟩

/-- Years and months counted from March are in the order of years and months. -/
theorem march_months (h : d.exists = true) :
    12 * d.marchYear + d.marchMonth = 12 * d.year + d.month - 3 ∧
      0 ≤ d.marchMonth ∧ d.marchMonth ≤ 11 := by
  obtain ⟨hmonth, -⟩ := bounds h
  rw [marchYear, marchMonth]
  split <;> omega

theorem toDays_eq (d : Date) : d.toDays =
    daysBeforeYear d.marchYear + daysBeforeMonth d.marchMonth + d.day - 719469 := by
  rw [toDays, ← marchYear, ← marchMonth, daysBeforeYear, daysBefore, daysBeforeMonth]
  omega

/-- A leap day ends the year in which it is. -/
theorem daysBeforeYear_succ (year : Int) : daysBeforeYear (year + 1) =
    daysBeforeYear year + 365 + (if isLeap (year + 1) then 1 else 0) := by
  have hera : (year + 1) / 400 = year / 400 + (if (year + 1) % 400 = 0 then 1 else 0) := by
    split <;> omega
  have hleap : isLeap (year + 1) = true ↔
      (year + 1) % 4 = 0 ∧ ((year + 1) % 100 ≠ 0 ∨ (year + 1) % 400 = 0) := by
    simp [isLeap]
  rw [daysBeforeYear, daysBeforeYear, daysBefore_succ, hera]
  by_cases h : isLeap (year + 1) = true
  · rw [if_pos h]
    rw [hleap] at h
    split <;> split <;> split <;> omega
  · rw [if_neg h]
    rw [hleap] at h
    split <;> split <;> split <;> omega

theorem daysBeforeYear_mono {m n : Int} (h : m ≤ n) : daysBeforeYear m ≤ daysBeforeYear n := by
  have hstep : Monotone daysBeforeYear := monotone_int_of_le_succ fun year => by
    rw [daysBeforeYear_succ]
    split <;> omega
  exact hstep h

/-- A month ends before the next one of its year begins, and a year before the next one. -/
theorem day_le (h : d.exists = true) :
    daysBeforeMonth d.marchMonth + d.day ≤ daysBeforeMonth (d.marchMonth + 1) ∧
      daysBeforeYear d.marchYear + daysBeforeMonth d.marchMonth + d.day ≤
        daysBeforeYear (d.marchYear + 1) := by
  obtain ⟨hmonth, -, hday⟩ := bounds h
  rw [daysBeforeYear_succ]
  by_cases hfebruary : d.month = 2
  · have hmarch : d.marchMonth = 11 := by
      rw [marchMonth, hfebruary]
      rfl
    have hyear : d.marchYear + 1 = d.year := by
      rw [marchYear, if_pos hfebruary.le]
      omega
    have hbefore : daysBeforeMonth 11 = 337 ∧ daysBeforeMonth (11 + 1) = 367 := ⟨rfl, rfl⟩
    rw [hfebruary, daysInMonth, if_pos rfl] at hday
    rw [hmarch, hyear, hbefore.1, hbefore.2]
    split at hday <;> split <;> omega
  · have hrange : 0 ≤ d.marchMonth ∧ d.marchMonth ≤ 10 := by
      rw [marchMonth]
      omega
    have hmonths : (if d.marchMonth < 10 then d.marchMonth + 3 else d.marchMonth - 9).toNat =
        d.month := by
      rw [marchMonth]
      split <;> omega
    have hlength := daysInMonth_eq d.year hrange.1 hrange.2
    rw [hmonths] at hlength
    have hlast : daysBeforeMonth (d.marchMonth + 1) ≤ 337 := by
      rw [daysBeforeMonth]
      omega
    split <;> omega

theorem toDays_lt_of_lt (hd : d.exists = true) (he : e.exists = true)
    (h : d.year < e.year ∨ d.year = e.year ∧
      (d.month < e.month ∨ d.month = e.month ∧ d.day < e.day)) : d.toDays < e.toDays := by
  obtain ⟨hmonths, hrange⟩ := march_months hd
  obtain ⟨hmonths', hrange'⟩ := march_months he
  obtain ⟨hmonth, -⟩ := bounds hd
  obtain ⟨hmonth', hfirst, -⟩ := bounds he
  obtain ⟨hended, hyear⟩ := day_le hd
  have hnonneg : 0 ≤ daysBeforeMonth e.marchMonth := by
    rw [daysBeforeMonth]
    omega
  rw [toDays_eq, toDays_eq]
  have hcases : d.marchYear + 1 ≤ e.marchYear ∨
      d.marchYear = e.marchYear ∧ (d.marchMonth + 1 ≤ e.marchMonth ∨
        d.marchMonth = e.marchMonth ∧ d.day < e.day) := by
    omega
  rcases hcases with hless | ⟨hsame, hless | ⟨hsame', hless⟩⟩
  · have hmono := daysBeforeYear_mono hless
    omega
  · have hmono : daysBeforeMonth (d.marchMonth + 1) ≤ daysBeforeMonth e.marchMonth := by
      rw [daysBeforeMonth, daysBeforeMonth]
      omega
    rw [hsame]
    omega
  · rw [hsame, hsame']
    omega

/-- The days come in the order of years, months and days of the month. -/
theorem toDays_lt_iff (hd : d.exists = true) (he : e.exists = true) : d.toDays < e.toDays ↔
    d.year < e.year ∨ d.year = e.year ∧
      (d.month < e.month ∨ d.month = e.month ∧ d.day < e.day) := by
  refine ⟨fun hlt => ?_, toDays_lt_of_lt hd he⟩
  by_contra hnot
  by_cases hsame : d = e
  · exact absurd hlt (hsame ▸ lt_irrefl _)
  · refine lt_asymm hlt (toDays_lt_of_lt he hd ?_)
    rcases d with ⟨y, m, n⟩
    rcases e with ⟨y', m', n'⟩
    simp only [Date.mk.injEq] at hsame hnot ⊢
    omega

end Date

section Texts

variable {s t : String} {i j : Int}

theorem digitValue_lt_iff {c d : Char} (hc : isDigit c = true) (hd : isDigit d = true) :
    digitValue c < digitValue d ↔ c < d := by
  rw [isDigit, Bool.and_eq_true, decide_eq_true_eq, decide_eq_true_eq] at hc hd
  have hfirst : 48 ≤ c.toNat ∧ 48 ≤ d.toNat := ⟨hc.1, hd.1⟩
  change c.toNat - 48 < d.toNat - 48 ↔ c.toNat < d.toNat
  omega

/-- A greater leading digit outweighs all that follows. -/
theorem leading_lt {a b q x y : ℕ} (h : a < b) (hx : x < q) : a * q + x < b * q + y :=
  calc a * q + x < a * q + q := Nat.add_lt_add_left hx _
    _ = (a + 1) * q := (Nat.succ_mul a q).symm
    _ ≤ b * q := Nat.mul_le_mul_right q h
    _ ≤ b * q + y := Nat.le_add_right _ _

/-- Runs of as many digits come in the order of their numbers, and then in that of what follows. -/
theorem digits_append_lt_iff {cs ds xs ys : List Char} (hlength : cs.length = ds.length)
    (hcs : ∀ c ∈ cs, isDigit c = true) (hds : ∀ c ∈ ds, isDigit c = true) :
    cs ++ xs < ds ++ ys ↔
      digitsValue cs < digitsValue ds ∨ digitsValue cs = digitsValue ds ∧ xs < ys := by
  induction cs generalizing ds with
  | nil =>
    obtain rfl := List.eq_nil_of_length_eq_zero hlength.symm
    simp
  | cons c cs ih =>
    obtain _ | ⟨d, ds⟩ := ds
    · cases hlength
    obtain ⟨hc, hcs⟩ := List.forall_mem_cons.1 hcs
    obtain ⟨hd, hds⟩ := List.forall_mem_cons.1 hds
    have hlength : cs.length = ds.length := Nat.succ.inj hlength
    rw [List.cons_append, List.cons_append, List.cons_lt_cons_iff, ih hlength hcs hds,
      digitsValue_cons, digitsValue_cons, hlength]
    have hlt := hlength ▸ digitsValue_lt hcs
    have hlt' := digitsValue_lt hds
    rcases lt_trichotomy c d with hless | rfl | hless
    · have hvalue := leading_lt (y := digitsValue ds) ((digitValue_lt_iff hc hd).2 hless) hlt
      exact iff_of_true (.inl hless) (.inl hvalue)
    · simp
    · have hvalue := leading_lt (y := digitsValue cs) ((digitValue_lt_iff hd hc).2 hless) hlt'
      refine iff_of_false (not_or.2 ⟨hless.asymm, fun h => hless.ne' h.1⟩) ?_
      exact not_or.2 ⟨hvalue.asymm, fun h => hvalue.ne' h.1⟩

/-- What is read as digits are so many digits. -/
theorem of_digits?_eq_some {k n : ℕ} {cs rest : List Char} (h : digits? k cs = some (n, rest)) :
    ∃ front, cs = front ++ rest ∧ front.length = k ∧ (∀ c ∈ front, isDigit c = true) ∧
      n = digitsValue front := by
  rw [digits?] at h
  split at h
  · next hfront =>
    obtain ⟨rfl, rfl⟩ := Prod.mk.inj (Option.some.inj h)
    rw [Bool.and_eq_true, decide_eq_true_eq, List.all_eq_true] at hfront
    exact ⟨cs.take k, (List.take_append_drop k cs).symm, hfront.1, hfront.2, rfl⟩
  · cases h

theorem of_dateFields?_eq_some {cs rest : List Char} {d : Date}
    (h : dateFields? cs = some (d, rest)) :
    ∃ year month : List Char, ∃ n : ℕ, ∃ more : List Char,
      cs = year ++ '-' :: (month ++ '-' :: more) ∧ digits? 2 more = some (n, rest) ∧
        (year.length = 4 ∧ month.length = 2) ∧ (∀ c ∈ year, isDigit c = true) ∧
          (∀ c ∈ month, isDigit c = true) ∧ d = ⟨digitsValue year, digitsValue month, n⟩ := by
  rw [dateFields?] at h
  split at h
  · next y afterYear hyear =>
    split at h
    · next m afterMonth hmonth =>
      split at h
      · next n afterDay hday =>
        obtain ⟨rfl, rfl⟩ := Prod.mk.inj (Option.some.inj h)
        obtain ⟨year, rfl, hfour, hyears, rfl⟩ := of_digits?_eq_some hyear
        obtain ⟨month, rfl, htwo, hmonths, rfl⟩ := of_digits?_eq_some hmonth
        exact ⟨year, month, n, afterMonth, rfl, hday, ⟨hfour, htwo⟩, hyears, hmonths, rfl⟩
      · cases h
    · cases h
  · cases h

/-- The digits of the fields of an existing date. -/
structure Written (cs : List Char) (d : Date) (year month day : List Char) : Prop where
  eq : cs = year ++ '-' :: (month ++ '-' :: (day ++ []))
  lawful : d.exists = true
  years : year.length = 4 ∧ ∀ c ∈ year, isDigit c = true
  months : month.length = 2 ∧ ∀ c ∈ month, isDigit c = true
  days : day.length = 2 ∧ ∀ c ∈ day, isDigit c = true
  fields : d = ⟨digitsValue year, digitsValue month, digitsValue day⟩

theorem exists_written {cs : List Char} {d : Date} (h : date? cs = some (d, [])) :
    ∃ year month day, Written cs d year month day := by
  rw [date?] at h
  split at h
  · next e rest hfields =>
    split at h
    · next hlawful =>
      obtain ⟨rfl, rfl⟩ := Prod.mk.inj (Option.some.inj h)
      obtain ⟨year, month, n, more, rfl, hday, ⟨hfour, htwo⟩, hyears, hmonths, rfl⟩ :=
        of_dateFields?_eq_some hfields
      obtain ⟨day, rfl, hdays, hdigits, rfl⟩ := of_digits?_eq_some hday
      exact ⟨year, month, day, rfl, hlawful, ⟨hfour, hyears⟩, ⟨htwo, hmonths⟩, ⟨hdays, hdigits⟩,
        rfl⟩
    · cases h
  · cases h

/-- Lists of characters of dates come in the order of the days. -/
theorem Written.lt_iff {cs cs' year month day year' month' day' : List Char} {d e : Date}
    (h : Written cs d year month day) (h' : Written cs' e year' month' day') :
    cs < cs' ↔ d.toDays < e.toDays := by
  have hlengths : year.length = year'.length ∧ month.length = month'.length ∧
      day.length = day'.length :=
    ⟨h.years.1.trans h'.years.1.symm, h.months.1.trans h'.months.1.symm,
      h.days.1.trans h'.days.1.symm⟩
  rw [Date.toDays_lt_iff h.lawful h'.lawful, h.eq, h'.eq,
    digits_append_lt_iff hlengths.1 h.years.2 h'.years.2, List.cons_lt_cons_iff,
    digits_append_lt_iff hlengths.2.1 h.months.2 h'.months.2, List.cons_lt_cons_iff,
    digits_append_lt_iff hlengths.2.2 h.days.2 h'.days.2, h.fields, h'.fields]
  simp

/-- The number of the day that a text names, if it names one of the calendar. -/
def day? (s : String) : Option Int :=
  match date? s.toList with
  | some (d, []) => some d.toDays
  | _ => none

theorem isSome_day? (s : String) : (day? s).isSome = isDate s := by
  rw [day?, isDate]
  rcases date? s.toList with _ | ⟨d, _ | ⟨c, rest⟩⟩ <;> rfl

theorem exists_written_of_day? (h : day? s = some i) :
    ∃ d year month day, Written s.toList d year month day ∧ i = d.toDays := by
  rw [day?] at h
  split at h
  · next d hdate =>
    obtain ⟨year, month, day, hwritten⟩ := exists_written hdate
    exact ⟨d, year, month, day, hwritten, (Option.some.inj h).symm⟩
  · cases h

/-- Texts of dates come in the order of their days. -/
theorem lt_iff_of_day? (hs : day? s = some i) (ht : day? t = some j) : s < t ↔ i < j := by
  obtain ⟨d, _, _, _, hd, rfl⟩ := exists_written_of_day? hs
  obtain ⟨e, _, _, _, he, rfl⟩ := exists_written_of_day? ht
  exact String.lt_iff_toList_lt.trans (hd.lt_iff he)

theorem toNat_lt_of_day? (h : day? s = some i) : ∀ c ∈ s.toList, c.toNat < 0x10000 := by
  have hdigit : ∀ c, isDigit c = true → c.toNat < 0x10000 := by
    intro c hc
    rw [isDigit, Bool.and_eq_true, decide_eq_true_eq, decide_eq_true_eq] at hc
    have hle : c.toNat ≤ 57 := hc.2
    omega
  obtain ⟨d, year, month, day, hd, -⟩ := exists_written_of_day? h
  rw [hd.eq, List.append_nil]
  simp only [List.forall_mem_append, List.forall_mem_cons]
  exact ⟨fun c hc => hdigit c (hd.years.2 c hc), by decide,
    fun c hc => hdigit c (hd.months.2 c hc), by decide, fun c hc => hdigit c (hd.days.2 c hc)⟩

/-- Characters that are single units come in the order of their units. -/
theorem units_lt_iff {cs ds : List Char} (hcs : ∀ c ∈ cs, c.toNat < 0x10000)
    (hds : ∀ c ∈ ds, c.toNat < 0x10000) :
    cs.flatMap Text.unitsOfChar < ds.flatMap Text.unitsOfChar ↔ cs < ds := by
  have hunits : ∀ {l : List Char}, (∀ c ∈ l, c.toNat < 0x10000) →
      l.flatMap Text.unitsOfChar = l.map Char.toNat := by
    intro l hl
    rw [← List.flatMap_singleton' (l.map Char.toNat), List.flatMap_map]
    exact List.flatMap_congr fun c hc => if_pos (hl c hc)
  rw [hunits hcs, hunits hds]
  clear hcs hds
  induction cs generalizing ds with
  | nil => cases ds <;> simp
  | cons c cs ih =>
    cases ds with
    | nil => simp
    | cons d ds =>
      rw [List.map_cons, List.map_cons, List.cons_lt_cons_iff, List.cons_lt_cons_iff,
        Char.toNat_inj]
      exact or_congr_right (and_congr_right fun _ => ih)

/-- The order of units is that of the days, too. -/
theorem unitsBefore_iff_of_day? (hs : day? s = some i) (ht : day? t = some j) :
    Text.unitsBefore s t = true ↔ i < j := by
  rw [Text.unitsBefore, decide_eq_true_eq, Text.units, Text.units,
    units_lt_iff (toNat_lt_of_day? hs) (toNat_lt_of_day? ht), ← String.lt_iff_toList_lt,
    lt_iff_of_day? hs ht]

end Texts

end FilmReport.Calendar
