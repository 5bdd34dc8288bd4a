import Mathlib.Algebra.Order.Floor.Semiring
import Mathlib.Data.List.TakeWhile
import Mathlib.Data.Rat.Floor
import Mathlib.Tactic.FieldSimp
import Mathlib.Tactic.Linarith
import Mathlib.Tactic.NormNum
import FilmReport.Normalize.Amount
import FilmReport.Proofs.Decimal.Numeral

/-!
What a reported text means as an amount (`Amount.Means`), said without the way in which it is read.
A text that is not missing is cleared of its markers by a sweep from the left, then of its commas
and of the blanks at its ends; what is left means an amount if it is a numeral, and the amount is
the number that the numeral writes, rounded to hundredths. Main statement: a text is read as what it
means (`Amount.means_iff`).
-/

set_option autoImplicit false
set_option relaxedAutoImplicit false

namespace FilmReport

namespace Text

/-- A list has the given core when what satisfies `p` is taken away at its two ends. -/
structure Trims (p : Char → Bool) (cs core : List Char) : Prop where
  edges : ∃ left right, cs = left ++ core ++ right ∧
    (∀ c ∈ left, p c = true) ∧ ∀ c ∈ right, p c = true
  first : ∀ c, core.head? = some c → p c = false
  last : ∀ c, core.getLast? = some c → p c = false

theorem dropWhile_append_of_forall {p : Char → Bool} {left rest : List Char}
    (hleft : ∀ c ∈ left, p c = true) (hrest : ∀ c, rest.head? = some c → p c = false) :
    (left ++ rest).dropWhile p = rest := by
  rw [List.dropWhile_append_of_pos hleft]
  cases rest with
  | nil => rfl
  | cons c rest => exact List.dropWhile_cons_of_neg (by simpa using hrest c rfl)

theorem trims_iff {p : Char → Bool} {cs core : List Char} :
    Trims p cs core ↔ trimList p cs = core := by
  constructor
  · rintro ⟨⟨left, right, rfl, hleft, hright⟩, hfirst, hlast⟩
    rw [trimList]
    cases core with
    | nil =>
      have hall : ∀ c ∈ left ++ right, p c = true := List.forall_mem_append.2 ⟨hleft, hright⟩
      have hnone : (left ++ right ++ []).dropWhile p = [] :=
        dropWhile_append_of_forall hall (by simp)
      rw [List.append_nil] at hnone ⊢
      rw [hnone]
      rfl
    | cons c core =>
      rw [List.append_assoc, dropWhile_append_of_forall hleft (by simpa using hfirst),
        List.reverse_append, dropWhile_append_of_forall, List.reverse_reverse]
      · exact fun c hc => hright c (List.mem_reverse.1 hc)
      · rw [List.head?_reverse]
        exact hlast
  · rintro rfl
    exact ⟨exists_edges_trimList p cs, fun _ => head?_trimList, fun _ => getLast?_trimList⟩

end Text

namespace Normalize.Amount

open Text

/-- The markers of currencies. -/
def markers : List (List Char) := ["$".toList, "INR".toList]

/-- A sweep from the left takes away each marker where it begins, goes on behind it, and keeps every
character at which no marker begins. -/
inductive Sweeps : List Char → List Char → Prop
  | nil : Sweeps [] []
  | drop {marker cs out : List Char} (hmarker : marker ∈ markers) (h : Sweeps cs out) :
    Sweeps (marker ++ cs) out
  | keep {c : Char} {cs out : List Char} (hnone : ∀ marker ∈ markers, ¬ marker <+: c :: cs)
    (h : Sweeps cs out) : Sweeps (c :: cs) (c :: out)

theorem sweeps_iff {cs out : List Char} : Sweeps cs out ↔ dropMarkers cs = out := by
  constructor
  · intro h
    induction h with
    | nil => rfl
    | drop hmarker _ ih =>
      rcases List.mem_pair.1 hmarker with rfl | rfl <;> exact ih
    | @keep c cs out hnone _ ih =>
      rw [dropMarkers, ih]
      · rintro rfl
        exact hnone ['$'] (by decide) ⟨cs, rfl⟩
      · rintro rest rfl rfl
        exact hnone ['I', 'N', 'R'] (by decide) ⟨rest, rfl⟩
  · rintro rfl
    fun_induction dropMarkers cs with
    | case1 => exact .nil
    | case2 cs ih => exact .drop (show ['$'] ∈ markers by decide) ih
    | case3 cs ih => exact .drop (show ['I', 'N', 'R'] ∈ markers by decide) ih
    | case4 c cs hdollar hrupees ih =>
      refine .keep (fun marker hmarker hprefix => ?_) ih
      obtain ⟨rest, hrest⟩ := hprefix
      rcases List.mem_pair.1 hmarker with rfl | rfl
      · exact hdollar (List.cons.inj hrest).1.symm
      · obtain ⟨hc, hcs⟩ := List.cons.inj hrest
        exact hrupees rest hc.symm hcs.symm

/-- What is left of a text without markers, without commas and without blanks at its ends. -/
def Bares (text : String) (t : List Char) : Prop :=
  ∃ swept, Sweeps text.toList swept ∧ Trims isBlank (swept.filter fun c => c ≠ ',') t

theorem bares_iff {text : String} {t : List Char} : Bares text t ↔ bare text = t := by
  constructor
  · rintro ⟨swept, hswept, ht⟩
    rw [bare, sweeps_iff.1 hswept]
    exact trims_iff.1 ht
  · intro h
    exact ⟨_, sweeps_iff.2 rfl, trims_iff.2 h⟩

/-- Digits with at most one point among them, and at least one of them. -/
structure IsNumeral (t : List Char) : Prop where
  allowed : ∀ c ∈ t, isDigit c = true ∨ c = '.'
  points : t.count '.' ≤ 1
  digit : ∃ c ∈ t, isDigit c = true

/-- What stands before the point. -/
def wholePart (t : List Char) : List Char :=
  t.takeWhile fun c => c ≠ '.'

/-- What stands behind the point. -/
def fractionPart (t : List Char) : List Char :=
  (t.dropWhile fun c => c ≠ '.').tail

/-- The number that a numeral writes. -/
def numeralValue (t : List Char) : ℚ :=
  digitsValue (wholePart t ++ fractionPart t) / 10 ^ (fractionPart t).length

theorem ne_point_of_isDigit {c : Char} (h : isDigit c = true) : c ≠ '.' := by
  rintro rfl
  cases h

section Parts

variable {whole fraction : List Char} (hwhole : ∀ c ∈ whole, isDigit c = true)

include hwhole

theorem wholePart_digits : wholePart whole = whole :=
  List.takeWhile_eq_self_iff.2 fun c hc => decide_eq_true (ne_point_of_isDigit (hwhole c hc))

theorem fractionPart_digits : fractionPart whole = [] := by
  have hall : ∀ c ∈ whole, decide (c ≠ '.') = true :=
    fun c hc => decide_eq_true (ne_point_of_isDigit (hwhole c hc))
  rw [fractionPart, List.dropWhile_eq_nil_iff.2 hall, List.tail_nil]

theorem wholePart_point : wholePart (whole ++ '.' :: fraction) = whole := by
  have hall : ∀ c ∈ whole, decide (c ≠ '.') = true :=
    fun c hc => decide_eq_true (ne_point_of_isDigit (hwhole c hc))
  rw [wholePart, List.takeWhile_append_of_pos hall, List.takeWhile_cons_of_neg (by decide),
    List.append_nil]

theorem fractionPart_point : fractionPart (whole ++ '.' :: fraction) = fraction := by
  have hall : ∀ c ∈ whole, decide (c ≠ '.') = true :=
    fun c hc => decide_eq_true (ne_point_of_isDigit (hwhole c hc))
  rw [fractionPart, List.dropWhile_append_of_pos hall, List.dropWhile_cons_of_neg (by decide),
    List.tail_cons]

end Parts

/-- A numeral is a run of digits, or two runs around a point that are not both empty. -/
theorem isNumeral_iff {t : List Char} : IsNumeral t ↔
    ∃ whole fraction, (∀ c ∈ whole, isDigit c = true) ∧ (∀ c ∈ fraction, isDigit c = true) ∧
      (whole ≠ [] ∨ fraction ≠ []) ∧
        (t = whole ++ '.' :: fraction ∨ t = whole ∧ fraction = []) := by
  have hnone : ∀ {cs : List Char}, (∀ c ∈ cs, isDigit c = true) → cs.count '.' = 0 :=
    fun h => List.count_eq_zero.2 fun hmem => ne_point_of_isDigit (h _ hmem) rfl
  constructor
  · rintro ⟨hallowed, hpoints, d, hd, hdigit⟩
    have hwhole : ∀ c ∈ t.takeWhile isDigit, isDigit c = true :=
      List.all_eq_true.1 List.all_takeWhile
    have hsplit := List.takeWhile_append_dropWhile (p := isDigit) (l := t)
    have hhead := List.head?_dropWhile_not isDigit t
    cases hrest : t.dropWhile isDigit with
    | nil =>
      rw [hrest, List.append_nil] at hsplit
      refine ⟨t, [], hsplit ▸ hwhole, List.forall_mem_nil _, .inl ?_, .inr ⟨rfl, rfl⟩⟩
      exact List.ne_nil_of_mem hd
    | cons c fraction =>
      rw [hrest] at hsplit hhead
      generalize t.takeWhile isDigit = whole at hsplit hwhole
      subst hsplit
      rw [List.forall_mem_append, List.forall_mem_cons] at hallowed
      have hpoint : c = '.' := hallowed.2.1.resolve_left (by simpa using hhead)
      subst hpoint
      rw [List.count_append, List.count_cons_self, hnone hwhole] at hpoints
      have hfraction : ∀ c ∈ fraction, isDigit c = true := by
        intro c hc
        refine (hallowed.2.2 c hc).resolve_right ?_
        rintro rfl
        have := List.count_pos_iff.2 hc
        omega
      refine ⟨whole, fraction, hwhole, hfraction, ?_, .inl rfl⟩
      by_contra! hempty
      obtain ⟨rfl, rfl⟩ := hempty
      obtain rfl := List.mem_singleton.1 hd
      cases hdigit
  · rintro ⟨whole, fraction, hwhole, hfraction, hsome, hshape⟩
    have hdigit : ∃ c ∈ whole ++ fraction, isDigit c = true := by
      have hne : whole ++ fraction ≠ [] := by
        rw [ne_eq, List.append_eq_nil_iff, not_and_or]
        exact hsome
      obtain ⟨c, hc⟩ := List.exists_mem_of_ne_nil _ hne
      exact ⟨c, hc, (List.mem_append.1 hc).elim (hwhole c) (hfraction c)⟩
    obtain ⟨d, hd, hdigit⟩ := hdigit
    rcases hshape with rfl | ⟨rfl, rfl⟩
    · refine ⟨fun c hc => ?_, ?_, d, ?_, hdigit⟩
      · rcases List.mem_append.1 hc with hc | hc
        · exact .inl (hwhole c hc)
        · exact (List.mem_cons.1 hc).symm.imp_left (hfraction c)
      · rw [List.count_append, List.count_cons_self, hnone hwhole, hnone hfraction]
      · exact List.mem_append.2 ((List.mem_append.1 hd).imp_right (List.mem_cons_of_mem _))
    · rw [List.append_nil] at hd
      exact ⟨fun c hc => .inl (hwhole c hc), (hnone hwhole).trans_le (Nat.zero_le 1), d, hd, hdigit⟩

/-- What is read as two runs of digits is put together from them. -/
theorem shape_of_numeral? {t whole fraction : List Char}
    (h : numeral? t = some (whole, fraction)) :
    (∀ c ∈ whole, isDigit c = true) ∧ (∀ c ∈ fraction, isDigit c = true) ∧
      (whole ≠ [] ∨ fraction ≠ []) ∧
        (t = whole ++ '.' :: fraction ∨ t = whole ∧ fraction = []) := by
  have hwhole : ∀ c ∈ t.takeWhile isDigit, isDigit c = true :=
    List.all_eq_true.1 List.all_takeWhile
  have hsplit := List.takeWhile_append_dropWhile (p := isDigit) (l := t)
  unfold numeral? at h
  dsimp only at h
  generalize t.takeWhile isDigit = digits at *
  split at h
  · next hrest =>
    split at h
    · cases h
    · next hsome =>
      obtain ⟨rfl, rfl⟩ := Prod.mk.inj (Option.some.inj h)
      rw [hrest, List.append_nil] at hsplit
      rw [List.isEmpty_iff] at hsome
      exact ⟨hwhole, List.forall_mem_nil _, .inl hsome, .inr ⟨hsplit.symm, rfl⟩⟩
  · next rest hrest =>
    split at h
    · cases h
    · next hsome =>
      obtain ⟨rfl, rfl⟩ := Prod.mk.inj (Option.some.inj h)
      rw [hrest] at hsplit
      simp only [Bool.or_eq_true, Bool.not_eq_true', Bool.and_eq_true, List.isEmpty_iff, not_or,
        Bool.not_eq_false, List.all_eq_true, not_and_or] at hsome
      exact ⟨hwhole, hsome.1, hsome.2, .inl hsplit.symm⟩
  · cases h

/-- A numeral is read as the digits before and behind its point. -/
theorem numeral?_eq_some_iff {t whole fraction : List Char} :
    numeral? t = some (whole, fraction) ↔
      IsNumeral t ∧ whole = wholePart t ∧ fraction = fractionPart t := by
  constructor
  · intro h
    have hshape := shape_of_numeral? h
    refine ⟨isNumeral_iff.2 ⟨whole, fraction, hshape⟩, ?_⟩
    obtain ⟨hwhole, -, -, rfl | ⟨rfl, rfl⟩⟩ := hshape
    · exact ⟨(wholePart_point hwhole).symm, (fractionPart_point hwhole).symm⟩
    · exact ⟨(wholePart_digits hwhole).symm, (fractionPart_digits hwhole).symm⟩
  · rintro ⟨h, rfl, rfl⟩
    obtain ⟨whole, fraction, hwhole, hfraction, hsome, rfl | ⟨rfl, rfl⟩⟩ := isNumeral_iff.1 h
    · have htake : (whole ++ '.' :: fraction).takeWhile isDigit = whole := by
        rw [List.takeWhile_append_of_pos hwhole, List.takeWhile_cons_of_neg (by decide),
          List.append_nil]
      have hdrop : (whole ++ '.' :: fraction).dropWhile isDigit = '.' :: fraction := by
        rw [List.dropWhile_append_of_pos hwhole, List.dropWhile_cons_of_neg (by decide)]
      have hall : fraction.all isDigit = true := List.all_eq_true.2 hfraction
      simp only [numeral?, htake, hdrop, hall, wholePart_point hwhole, fractionPart_point hwhole]
      rw [if_neg]
      simpa [← not_and_or] using hsome
    · have hne : t ≠ [] := hsome.resolve_right (by simp)
      simp only [numeral?, List.takeWhile_eq_self_iff.2 hwhole, List.dropWhile_eq_nil_iff.2 hwhole,
        wholePart_digits hwhole, fractionPart_digits hwhole]
      rw [if_neg (by simpa using hne)]

/-- What is no numeral is not read. -/
theorem numeral?_eq_none_iff {t : List Char} : numeral? t = none ↔ ¬ IsNumeral t := by
  constructor
  · intro hnone h
    rw [numeral?_eq_some_iff.2 ⟨h, rfl, rfl⟩] at hnone
    cases hnone
  · intro h
    refine Option.eq_none_iff_forall_ne_some.2 fun parts hparts => ?_
    exact h (numeral?_eq_some_iff.1 hparts).1

/-- The first two digits of a fraction, the third one and those behind it. -/
theorem exists_places {fraction : List Char} (h : ∀ c ∈ fraction, isDigit c = true) :
    ∃ places third rest, fraction ++ ['0', '0', '0'] = places ++ third :: rest ∧
      places.length = 2 ∧ rest.length = fraction.length ∧ isDigit third = true ∧
        ∀ c ∈ rest, isDigit c = true := by
  have hdigits : ∀ c ∈ fraction ++ ['0', '0', '0'], isDigit c = true :=
    List.forall_mem_append.2 ⟨h, List.all_eq_true.1 rfl⟩
  have hlength : (fraction ++ ['0', '0', '0']).length = fraction.length + 3 := List.length_append
  match hpadded : fraction ++ ['0', '0', '0'], hdigits, hlength with
  | a :: b :: third :: rest, hdigits, hlength =>
    rw [List.forall_mem_cons, List.forall_mem_cons, List.forall_mem_cons] at hdigits
    exact ⟨[a, b], third, rest, rfl, rfl, by simpa using hlength, hdigits.2.2⟩

/-- Whole hundredths `w * 100 + p` and a part of one with the first digit `d` are rounded by `d`. -/
theorem floor_hundredths {w f p d r scale : ℕ} (hd : d ≤ 9) (hr : r < scale)
    (hf : f * 1000 = (p * 10 + d) * scale + r) :
    ⌊(100 * ((w * scale + f : ℕ) / scale) + 1 / 2 : ℚ)⌋₊ =
      w * 100 + p + if 5 ≤ d then 1 else 0 := by
  have hscale : (0 : ℚ) < scale := by exact_mod_cast (Nat.zero_le r).trans_lt hr
  have hr' : (r : ℚ) < scale := by exact_mod_cast hr
  have hf' : (f : ℚ) * 1000 = (p * 10 + d) * scale + r := by exact_mod_cast hf
  -- What is behind the second place, in hundredths.
  obtain ⟨part, hpart⟩ : ∃ part : ℚ, part = (d + r / scale) / 10 := ⟨_, rfl⟩
  have hvalue : (100 * ((w * scale + f : ℕ) / scale) : ℚ) = w * 100 + p + part := by
    rw [hpart]
    push_cast
    field_simp
    linarith
  have hlow : (d : ℚ) / 10 ≤ part := by
    have : (0 : ℚ) ≤ r / scale := by positivity
    linarith
  have hhigh : part < (d + 1) / 10 := by
    have : (r : ℚ) / scale < 1 := (div_lt_one hscale).2 hr'
    linarith
  have hzero : (0 : ℚ) ≤ d := Nat.cast_nonneg d
  have hwhole : (0 : ℚ) ≤ w * 100 + p := by positivity
  rw [hvalue, Nat.floor_eq_iff (by linarith)]
  split
  · next hup =>
    have hfive : (5 : ℚ) ≤ d := by exact_mod_cast hup
    have hnine : (d : ℚ) ≤ 9 := by exact_mod_cast hd
    push_cast
    constructor <;> linarith
  · next hdown =>
    have hfour : (d : ℚ) ≤ 4 := by exact_mod_cast Nat.lt_succ_iff.1 (not_le.1 hdown)
    push_cast
    constructor <;> linarith

/-- The hundredths of a numeral are the nearest to the number that it writes, a half counting up. -/
theorem centsOf_eq_floor {whole fraction : List Char} (h : ∀ c ∈ fraction, isDigit c = true) :
    centsOf whole fraction =
      ⌊(100 * (digitsValue (whole ++ fraction) / 10 ^ fraction.length) + 1 / 2 : ℚ)⌋₊ := by
  obtain ⟨places, third, rest, hpadded, hplaces, hrest, hthird, hdigits⟩ := exists_places h
  have hcents : centsOf whole fraction = digitsValue whole * 100 + digitsValue places +
      if 5 ≤ digitValue third then 1 else 0 := by
    rw [centsOf, hpadded, List.take_left' hplaces, List.drop_left' hplaces, List.take_succ_cons,
      List.take_zero, digitsValue_singleton]
  have hlt := digitsValue_lt hdigits
  have hfraction : digitsValue fraction * 1000 =
      (digitsValue places * 10 + digitValue third) * 10 ^ fraction.length + digitsValue rest := by
    have hvalue := congrArg digitsValue hpadded
    rw [digitsValue_append fraction, digitsValue_append places, digitsValue_cons third] at hvalue
    have hzeros : digitsValue ['0', '0', '0'] = 0 := rfl
    simp only [hzeros, List.length_cons, List.length_nil, hrest, pow_succ] at hvalue
    linarith
  rw [hrest] at hlt
  have hfloor := floor_hundredths (w := digitsValue whole) (digitValue_le hthird) hlt hfraction
  rw [← digitsValue_append, Nat.cast_pow, Nat.cast_ofNat] at hfloor
  rw [hcents, hfloor]

/-- A numeral has at most so many digits before its point, zeros in front apart, as it takes to
write its number. -/
theorem length_wholePart_le_iff {t : List Char} (h : IsNumeral t) (k : ℕ) :
    ((wholePart t).dropWhile (· == '0')).length ≤ k ↔ numeralValue t < 10 ^ k := by
  obtain ⟨hwhole, hfraction, -⟩ := shape_of_numeral? (numeral?_eq_some_iff.2 ⟨h, rfl, rfl⟩)
  have hlt := digitsValue_lt hfraction
  have hscale : (0 : ℚ) < 10 ^ (fractionPart t).length := by positivity
  rw [length_dropWhile_zero_le_iff hwhole, numeralValue, digitsValue_append, div_lt_iff₀ hscale]
  have hcast : ((digitsValue (wholePart t) * 10 ^ (fractionPart t).length +
      digitsValue (fractionPart t) : ℕ) : ℚ) < 10 ^ k * 10 ^ (fractionPart t).length ↔
      digitsValue (wholePart t) * 10 ^ (fractionPart t).length + digitsValue (fractionPart t) <
        10 ^ k * 10 ^ (fractionPart t).length := by
    exact_mod_cast Iff.rfl
  rw [hcast]
  generalize 10 ^ (fractionPart t).length = scale at *
  constructor
  · intro hwhole
    nlinarith
  · intro hsum
    by_contra! hge
    nlinarith

/-- A text that is not missing and leaves a numeral is an amount if it has not too many digits. -/
theorem read_of_isNumeral {text : String} (hmissing : isMissing (some text) = false)
    (h : IsNumeral (bare text)) :
    read (some text) =
      if maxWholeDigits < ((wholePart (bare text)).dropWhile (· == '0')).length then
        .invalid text .tooManyDigits
      else .parsed ⌊100 * numeralValue (bare text) + 1 / 2⌋₊ := by
  have hnumeral := numeral?_eq_some_iff.2 ⟨h, rfl, rfl⟩
  have hcents : centsOf (wholePart (bare text)) (fractionPart (bare text)) = _ :=
    centsOf_eq_floor (shape_of_numeral? hnumeral).2.1
  have hzeros : centsOf ((wholePart (bare text)).dropWhile (· == '0')) (fractionPart (bare text)) =
      centsOf (wholePart (bare text)) (fractionPart (bare text)) := by
    rw [centsOf, digitsValue_dropWhile_zero, centsOf]
  rw [numeralValue, ← hcents, ← hzeros]
  simp only [read, hmissing, hnumeral]
  rfl

theorem read_of_not_isNumeral {text : String} (hmissing : isMissing (some text) = false)
    (h : ¬ IsNumeral (bare text)) : read (some text) = .invalid text .notNumeric := by
  simp only [read, hmissing, numeral?_eq_none_iff.2 h]
  rfl

/-- A text is read as an amount only if it leaves a numeral of a number that is small enough. -/
theorem exists_of_read_eq_parsed {raw : Option String} {cents : ℕ} (h : read raw = .parsed cents) :
    ∃ text, raw = some text ∧ IsNumeral (bare text) ∧ numeralValue (bare text) < 10 ^ 13 ∧
      cents = ⌊100 * numeralValue (bare text) + 1 / 2⌋₊ := by
  cases raw with
  | none => cases h
  | some text =>
    cases hmissing : isMissing (some text) with
    | true =>
      rw [read, if_pos hmissing] at h
      cases h
    | false =>
      by_cases hnumeral : IsNumeral (bare text)
      · rw [read_of_isNumeral hmissing hnumeral] at h
        split at h
        · cases h
        · next hlength =>
          refine ⟨text, rfl, hnumeral, ?_, (Amount.parsed.inj h).symm⟩
          exact (length_wholePart_le_iff hnumeral 13).1 (not_lt.1 hlength)
      · rw [read_of_not_isNumeral hmissing hnumeral] at h
        cases h

theorem cents_le_of_read {raw : Option String} {cents : ℕ} (h : read raw = .parsed cents) :
    cents ≤ 10 ^ 15 := by
  obtain ⟨text, -, -, hlt, rfl⟩ := exists_of_read_eq_parsed h
  refine Nat.lt_succ_iff.1 ((Nat.floor_lt' (Nat.succ_ne_zero _)).2 ?_)
  push_cast
  linarith

/-- A text is missing if it is blank or the word for missing texts, between blanks. -/
def IsMissing (text : String) : Prop :=
  ∃ core, Trims isBlank text.toList core ∧ (core = [] ∨ core = missingWord.toList)

theorem isMissing_iff {text : String} : IsMissing text ↔ isMissing (some text) = true := by
  have hcore : ∀ core : List Char, trimBlank text = String.ofList core ↔
      Trims isBlank text.toList core := by
    intro core
    rw [trims_iff, trimBlank, trimWith, String.ofList_inj]
  have hword : missingWord = String.ofList missingWord.toList := String.ofList_toList.symm
  have hempty : "" = String.ofList [] := rfl
  rw [isMissing, Bool.or_eq_true, beq_iff_eq, beq_iff_eq, hword, hempty, hcore, hcore]
  constructor
  · rintro ⟨core, h, rfl | rfl⟩
    · exact .inl h
    · exact .inr h
  · rintro (h | h)
    · exact ⟨_, h, .inl rfl⟩
    · exact ⟨_, h, .inr rfl⟩

theorem isMissing_eq_false_iff {text : String} :
    isMissing (some text) = false ↔ ¬ IsMissing text := by
  rw [isMissing_iff, Bool.not_eq_true]

/-- What a reported text means. -/
inductive Means : Option String → Amount → Prop
  | unreported : Means none .absent
  | missing {text : String} (hmissing : IsMissing text) : Means (some text) .absent
  | notNumeric {text : String} {t : List Char} (hmissing : ¬ IsMissing text) (ht : Bares text t)
    (h : ¬ IsNumeral t) : Means (some text) (.invalid text .notNumeric)
  | tooManyDigits {text : String} {t : List Char} (hmissing : ¬ IsMissing text)
    (ht : Bares text t) (h : IsNumeral t)
    (hlong : 13 < ((wholePart t).dropWhile fun c => c = '0').length) :
    Means (some text) (.invalid text .tooManyDigits)
  | parsed {text : String} {t : List Char} (hmissing : ¬ IsMissing text) (ht : Bares text t)
    (h : IsNumeral t) (hshort : ((wholePart t).dropWhile fun c => c = '0').length ≤ 13) :
    Means (some text) (.parsed ⌊100 * numeralValue t + 1 / 2⌋₊)

/-- A reported text is read as what it means. -/
theorem means_iff {raw : Option String} {a : Amount} : Means raw a ↔ read raw = a := by
  constructor
  · intro h
    cases h with
    | unreported => rfl
    | missing hmissing => exact if_pos (isMissing_iff.1 hmissing)
    | notNumeric hmissing ht h =>
      rw [bares_iff] at ht
      subst ht
      exact read_of_not_isNumeral (isMissing_eq_false_iff.2 hmissing) h
    | tooManyDigits hmissing ht h hlong =>
      rw [bares_iff] at ht
      subst ht
      rw [read_of_isNumeral (isMissing_eq_false_iff.2 hmissing) h]
      exact if_pos hlong
    | parsed hmissing ht h hshort =>
      rw [bares_iff] at ht
      subst ht
      rw [read_of_isNumeral (isMissing_eq_false_iff.2 hmissing) h]
      exact if_neg (not_lt.2 hshort)
  · rintro rfl
    cases raw with
    | none => exact .unreported
    | some text =>
      cases hmissing : isMissing (some text) with
      | true =>
        rw [read, if_pos hmissing]
        exact .missing (isMissing_iff.2 hmissing)
      | false =>
        have hpresent := isMissing_eq_false_iff.1 hmissing
        by_cases h : IsNumeral (bare text)
        · rw [read_of_isNumeral hmissing h]
          split
          · next hlong => exact .tooManyDigits hpresent (bares_iff.2 rfl) h hlong
          · next hshort => exact .parsed hpresent (bares_iff.2 rfl) h (not_lt.1 hshort)
        · rw [read_of_not_isNumeral hmissing h]
          exact .notNumeric hpresent (bares_iff.2 rfl) h

end Normalize.Amount
end FilmReport
