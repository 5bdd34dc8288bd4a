import FilmReport.Proofs.Binary64.Range
import FilmReport.Proofs.Calendar.Instant
import FilmReport.Proofs.Normalize.Amount

/-!
Amounts in fifteen digits, two of them behind the point. An amount that fits (`Amount.Fits`) is read
back from its text in two decimal places. The digits before the point are counted before the third
one behind it is rounded; so a numeral just below the limit is carried over it (`Amount.Carried`).
An amount that is read fits or was carried (`Amount.fits_or_carried`).
-/

set_option autoImplicit false
set_option relaxedAutoImplicit false

namespace FilmReport.Normalize.Amount

open Text Binary64 Calendar.Instant

/-- A number in two decimal places: the nearest there is, and of two that are near the greater. -/
def twoPlaces (q : ℚ) : String :=
  let hundredths := ⌊100 * q + 1 / 2⌋₊
  padded 1 (hundredths / 100) ++ "." ++ padded 2 (hundredths % 100)

/-- An amount of fifteen digits at most, two of them behind the point: so are its hundredths, its
value has thirteen digits before the point, and from its text in two places it is read back. -/
structure Fits (cents : ℕ) : Prop where
  cents_le : cents ≤ 999999999999999
  value : ∃ v, units cents = .finite v ∧ 0 ≤ v ∧ v < 10 ^ 13 ∧
    read (some (twoPlaces v)) = .parsed cents

/-- A numeral has no blanks at its ends. -/
theorem trims_of_isNumeral {t : List Char} (h : IsNumeral t) : Trims isBlank t t := by
  have hblank : ∀ c ∈ t, isBlank c = false := by
    intro c hc
    refine Bool.eq_false_iff.2 fun hblank => ?_
    simp only [isBlank, Bool.or_eq_true, beq_iff_eq] at hblank
    rcases hblank with ((rfl | rfl) | rfl) | rfl <;> rcases h.allowed _ hc with hc | hc <;> cases hc
  refine ⟨⟨[], [], by simp, List.forall_mem_nil _, List.forall_mem_nil _⟩, ?_, ?_⟩
  · exact fun c hc => hblank c (List.mem_of_mem_head? hc)
  · exact fun c hc => hblank c (List.mem_of_mem_getLast? hc)

/-- A sweep keeps digits and points. -/
theorem sweeps_self {t : List Char} (h : ∀ c ∈ t, isDigit c = true ∨ c = '.') : Sweeps t t := by
  induction t with
  | nil => exact .nil
  | cons c t ih =>
    rw [List.forall_mem_cons] at h
    refine .keep (fun marker hmarker hprefix => ?_) (ih h.2)
    obtain ⟨rest, hrest⟩ := hprefix
    rcases List.mem_pair.1 hmarker with rfl | rfl <;>
      obtain rfl := (List.cons.inj hrest).1 <;> rcases h.1 with hc | hc <;> cases hc

/-- Nothing is taken away from a numeral. -/
theorem bare_of_isNumeral {text : String} (h : IsNumeral text.toList) :
    bare text = text.toList := by
  have hcommas : text.toList.filter (fun c => c ≠ ',') = text.toList := by
    refine List.filter_eq_self.2 fun c hc => decide_eq_true ?_
    rintro rfl
    rcases h.allowed _ hc with hc | hc <;> cases hc
  refine bares_iff.1 ⟨_, sweeps_self h.allowed, ?_⟩
  rw [hcommas]
  exact trims_of_isNumeral h

theorem isMissing_of_isNumeral {text : String} (h : IsNumeral text.toList) :
    isMissing (some text) = false := by
  rw [isMissing_eq_false_iff]
  rintro ⟨core, hcore, hword⟩
  obtain rfl : core = text.toList :=
    (trims_iff.1 hcore).symm.trans (trims_iff.1 (trims_of_isNumeral h))
  rcases hword with hempty | hword
  · obtain ⟨c, hc, -⟩ := h.digit
    rw [hempty] at hc
    cases hc
  · rcases h.allowed 'U' (by rw [hword]; decide) with hc | hc <;> cases hc

section Written

variable {n : ℕ}

theorem floor_hundredths_div (n : ℕ) : ⌊(100 * (n / 100) + 1 / 2 : ℚ)⌋₊ = n := by
  rw [Nat.floor_eq_iff (by positivity)]
  constructor <;> linarith

/-- The text of a whole number of hundredths. -/
theorem toList_twoPlaces (n : ℕ) : (twoPlaces (n / 100)).toList =
    (padded 1 (n / 100)).toList ++ '.' :: (padded 2 (n % 100)).toList := by
  rw [twoPlaces, floor_hundredths_div]
  simp

theorem digits_padded (width n : ℕ) : ∀ c ∈ (padded width n).toList, isDigit c = true :=
  fun _ => isDigit_of_mem_padded

theorem length_places (n : ℕ) : (padded 2 (n % 100)).toList.length = 2 :=
  length_padded (by decide) (Nat.mod_lt n (by decide))

theorem isNumeral_twoPlaces (n : ℕ) : IsNumeral (twoPlaces (n / 100)).toList := by
  have hplaces : (padded 2 (n % 100)).toList ≠ [] :=
    List.ne_nil_of_length_eq_add_one (length_places n)
  exact isNumeral_iff.2 ⟨_, _, digits_padded _ _, digits_padded _ _, .inr hplaces,
    .inl (toList_twoPlaces n)⟩

/-- The text writes the number of which it was made. -/
theorem numeralValue_twoPlaces (n : ℕ) : numeralValue (twoPlaces (n / 100)).toList = n / 100 := by
  rw [toList_twoPlaces, numeralValue, wholePart_point (digits_padded _ _),
    fractionPart_point (digits_padded _ _), digitsValue_append, digitsValue_padded,
    digitsValue_padded, length_places]
  have hsplit : n / 100 * 10 ^ 2 + n % 100 = n := by omega
  rw [hsplit]
  norm_num

/-- The hundredths are read back from their text if it has not too many digits. -/
theorem read_twoPlaces (n : ℕ) : read (some (twoPlaces (n / 100))) =
    if n < 10 ^ 15 then .parsed n else .invalid (twoPlaces (n / 100)) .tooManyDigits := by
  have h := isNumeral_twoPlaces n
  have hbare := bare_of_isNumeral h
  have hlength := length_wholePart_le_iff h 13
  rw [numeralValue_twoPlaces] at hlength
  have hlimit : (n / 100 : ℚ) < 10 ^ 13 ↔ n < 10 ^ 15 := by
    rw [div_lt_iff₀ (by norm_num)]
    norm_num
  rw [read_of_isNumeral (isMissing_of_isNumeral h) (hbare ▸ h), hbare, numeralValue_twoPlaces,
    floor_hundredths_div, maxWholeDigits]
  split
  · next hlong => rw [if_neg fun hlt => not_le.2 hlong (hlength.2 (hlimit.2 hlt))]
  · next hshort => rw [if_pos (hlimit.1 (hlength.1 (not_lt.1 hshort)))]

end Written

/-- The value of hundredths is nearer to them than to any others. -/
theorem exists_units {cents : ℕ} (h : cents ≤ 10 ^ 15) :
    ∃ v, units cents = .finite v ∧ 0 ≤ v ∧ |v - cents / 100| < 1 / 200 := by
  rw [units, Rat.mkRat_eq_div]
  push_cast
  rcases Nat.eq_zero_or_pos cents with rfl | hpos
  · exact ⟨0, by simp [Binary64.round], le_rfl, by norm_num⟩
  · have hcents : (0 : ℚ) < cents := by exact_mod_cast hpos
    have hle : (cents : ℚ) / 100 ≤ 10 ^ 13 := by
      have : (cents : ℚ) ≤ 10 ^ 15 := by exact_mod_cast h
      linarith
    have hrange : (10 : ℚ) ^ 13 ≤ 2 ^ (1023 : ℤ) :=
      le_trans (by norm_num) (two_zpow_le (show (44 : ℤ) ≤ 1023 by decide))
    have hrounds := RoundsTo.of_pos (by positivity) (hle.trans hrange)
    refine ⟨_, hrounds.round, magnitude_nonneg _, hrounds.error.trans_lt ?_⟩
    have htiny : (2 : ℚ) ^ (-1075 : ℤ) ≤ 2 ^ (-53 : ℤ) := two_zpow_le (by decide)
    have hsmall : (2 : ℚ) ^ (-53 : ℤ) = 1 / 9007199254740992 := by norm_num
    rw [hsmall] at htiny ⊢
    rw [abs_of_pos (by positivity)]
    linarith

/-- A number near to hundredths has their text. -/
theorem twoPlaces_of_near {v : ℚ} {n : ℕ} (hv : 0 ≤ v) (h : |v - n / 100| < 1 / 200) :
    twoPlaces v = twoPlaces (n / 100) := by
  obtain ⟨hlow, hhigh⟩ := abs_lt.1 h
  have hfloor : ⌊(100 * v + 1 / 2 : ℚ)⌋₊ = n := by
    rw [Nat.floor_eq_iff (by positivity)]
    constructor <;> linarith
  rw [twoPlaces, hfloor, twoPlaces, floor_hundredths_div]

theorem fits_of_lt {cents : ℕ} (h : cents < 10 ^ 15) : Fits cents := by
  obtain ⟨v, hunits, hv, hnear⟩ := exists_units h.le
  refine ⟨by omega, v, hunits, hv, ?_, ?_⟩
  · have hcents : (cents : ℚ) ≤ 10 ^ 15 - 1 := by
      have : (cents : ℚ) + 1 ≤ 10 ^ 15 := by exact_mod_cast h
      linarith
    linarith [(abs_lt.1 hnear).2]
  · rw [twoPlaces_of_near hv hnear, read_twoPlaces, if_pos h]

/-- The amount of a numeral at most half a hundredth below ten trillions: its hundredths are rounded
up to these, it does not fit, and its text is not read. -/
structure Carried (t : List Char) (cents : ℕ) : Prop where
  near : 9999999999999995 / 1000 ≤ numeralValue t
  below : numeralValue t < 10 ^ 13
  cents_eq : cents = 10 ^ 15
  misfits : ¬ Fits cents
  value : units cents = .finite (10 ^ 13)
  lost : read (some (twoPlaces (10 ^ 13))) = .invalid (twoPlaces (10 ^ 13)) .tooManyDigits

/-- An amount that is read fits, or it was carried over the limit; the numeral tells which. -/
theorem fits_or_carried {raw : Option String} {cents : ℕ} (h : read raw = .parsed cents) :
    ∃ text t, raw = some text ∧ Bares text t ∧ IsNumeral t ∧
      (numeralValue t < 9999999999999995 / 1000 ∧ Fits cents ∨ Carried t cents) := by
  have hle := cents_le_of_read h
  obtain ⟨text, rfl, hnumeral, hlt, hcents⟩ := exists_of_read_eq_parsed h
  refine ⟨text, bare text, rfl, bares_iff.2 rfl, hnumeral, ?_⟩
  rcases lt_or_ge (numeralValue (bare text)) (9999999999999995 / 1000) with hbelow | hnear
  · refine .inl ⟨hbelow, fits_of_lt ?_⟩
    rw [hcents, Nat.floor_lt' (by decide)]
    push_cast
    linarith
  · have hge : 10 ^ 15 ≤ cents := by
      rw [hcents, Nat.le_floor_iff' (by decide)]
      push_cast
      linarith
    obtain rfl : cents = 10 ^ 15 := hle.antisymm hge
    have hlost := read_twoPlaces (10 ^ 15)
    have hvalue : ((10 ^ 15 : ℕ) / 100 : ℚ) = 10 ^ 13 := by norm_num
    rw [hvalue, if_neg (lt_irrefl _)] at hlost
    exact .inr {
      near := hnear
      below := hlt
      cents_eq := rfl
      misfits := fun hfits => absurd hfits.cents_le (by decide)
      value := by decide +kernel
      lost := hlost }

/-- The least numeral that is carried. -/
theorem carried_of_edge : read (some "$ 9,999,999,999,999.995") = .parsed (10 ^ 15) ∧
    ∃ text t, some "$ 9,999,999,999,999.995" = some text ∧ Bares text t ∧ IsNumeral t ∧
      (numeralValue t < 9999999999999995 / 1000 ∧ Fits (10 ^ 15) ∨ Carried t (10 ^ 15)) := by
  have hread : read (some "$ 9,999,999,999,999.995") = .parsed (10 ^ 15) := by decide +kernel
  exact ⟨hread, fits_or_carried hread⟩

end FilmReport.Normalize.Amount
