import Mathlib.Algebra.Order.Floor.Semifield
import Mathlib.Tactic.FieldSimp
import Mathlib.Tactic.IntervalCases
import FilmReport.Proofs.Binary64.Range
import FilmReport.Proofs.Decimal.Digits
import FilmReport.Proofs.Decimal.Numeral

/-!
Rounding to decimals keeps the order of the numbers of the format (`Binary64.roundPlaces_mono`). The
digits of two numbers that differ are nearer to them than the numbers are to each other, so that the
units of the last place that are kept are in their order; and what a numeral of so many units is
read as misses them by much less than one of them.
-/

set_option autoImplicit false
set_option relaxedAutoImplicit false

namespace FilmReport

open Binary64

namespace Decimal

/-- The units of the last of so many places that a decimal is rounded to. -/
def units (places : ℕ) (d : Decimal) : ℕ :=
  (d.roundAt (-places)).coefficient * Nat.pow 10 ((d.roundAt (-places)).exponent + places).toNat

variable {places : ℕ} {d : Decimal}

theorem units_eq_floor (places : ℕ) (d : Decimal) :
    d.units places = ⌊d.coefficient * (10 : ℚ) ^ d.exponent * 10 ^ places + 1 / 2⌋₊ := by
  rw [mul_assoc, ← zpow_natCast, ← zpow_add₀ (by norm_num), units, roundAt]
  split
  · next hle =>
    -- Nothing is cut off.
    obtain ⟨k, hk⟩ : ∃ k : ℕ, d.exponent + places = k :=
      ⟨(d.exponent + places).toNat, by omega⟩
    rw [hk, Int.toNat_natCast, zpow_natCast, add_comm]
    have hwhole : 1 / 2 + (d.coefficient : ℚ) * 10 ^ k =
        1 / 2 + (d.coefficient * 10 ^ k : ℕ) := by push_cast; rfl
    rw [hwhole, Nat.floor_add_natCast (by norm_num), Nat.floor_eq_zero.2 (by norm_num), zero_add]
    rfl
  · next hlt =>
    obtain ⟨k, hk⟩ : ∃ k : ℕ, d.exponent + places = -(k + 1 : ℕ) :=
      ⟨(-(d.exponent + places) - 1).toNat, by omega⟩
    have hcut : (-(places : ℤ) - d.exponent).toNat - 1 = k := by omega
    have hvalue : d.coefficient * (10 : ℚ) ^ (d.exponent + places) + 1 / 2 =
        (d.coefficient + 5 * 10 ^ k : ℕ) / (10 ^ (k + 1) : ℕ) := by
      rw [hk, zpow_neg, zpow_natCast]
      push_cast
      field_simp
      ring
    rw [hvalue, Nat.floor_div_eq_div, pow_succ, ← Nat.div_div_eq_div_mul,
      Nat.add_mul_div_right _ _ (pow_pos (by norm_num) k)]
    simp [hcut]

/-- The units have no more digits than the decimal, but for zeros at their end. -/
theorem exists_units (places : ℕ) (hexponent : d.exponent ≤ 0) :
    ∃ m t, d.units places = m * 10 ^ t ∧ m ≤ d.coefficient ∧ t ≤ places := by
  rw [units, roundAt]
  split
  · exact ⟨d.coefficient, _, rfl, le_rfl, by omega⟩
  · obtain ⟨p, hp⟩ : ∃ p, p = Nat.pow 10 ((-(places : ℤ) - d.exponent).toNat - 1) := ⟨_, rfl⟩
    have hdigits : (d.coefficient / p + 5) / 10 ≤ d.coefficient := by
      have := Nat.div_le_self d.coefficient p
      omega
    exact ⟨(d.coefficient / p + 5) / 10, 0, by simp [hp], hdigits, Nat.zero_le _⟩

theorem units_eq_zero {q : ℚ} (hplaces : places ≤ 4) (hpos : 0 < q) (hle : q ≤ 2 ^ (52 : ℤ))
    (hround : Binary64.round q = finite q) (htiny : IsTiny q) : (ofStored q).units places = 0 := by
  have hdigits := ofStored_tiny hpos hle (isMultiple_of_round hround) htiny
  have hpower : (10 : ℚ) ^ places ≤ 10 ^ 4 := pow_le_pow_right₀ (by norm_num) hplaces
  have hproduct := mul_le_mul hdigits hpower (by positivity) (by positivity)
  rw [units_eq_floor, Nat.floor_eq_zero]
  norm_num at hproduct ⊢
  linarith

theorem units_le {q : ℚ} (hplaces : places ≤ 4) (hpos : 0 < q) (hle : q ≤ 2 ^ (52 : ℤ))
    (hround : Binary64.round q = finite q) :
    (ofStored q).units places ≤ 2 ^ 53 * 10 ^ places := by
  by_cases htiny : IsTiny q
  · rw [units_eq_zero hplaces hpos hle hround htiny]
    exact Nat.zero_le _
  · have hup := (abs_le.1 (ofStored_near hle hround htiny).2).2
    rw [units_eq_floor]
    generalize (ofStored q).coefficient * (10 : ℚ) ^ (ofStored q).exponent = D at *
    have hpower : (1 : ℚ) ≤ 10 ^ places := one_le_pow₀ (by norm_num)
    have hD : D ≤ 2 ^ 52 + 1 := by
      norm_num at hup hle ⊢
      linarith
    have hproduct := mul_le_mul_of_nonneg_right hD (zero_le_one.trans hpower)
    refine Nat.floor_le_of_le ?_
    push_cast
    linarith

/-- The units of the last place that is kept are in the order of the numbers. -/
theorem units_mono {q q' : ℚ} (hplaces : places ≤ 4) (hpos : 0 < q) (hle : q' ≤ 2 ^ (52 : ℤ))
    (hround : Binary64.round q = finite q) (hround' : Binary64.round q' = finite q')
    (hlt : q < q') : (ofStored q).units places ≤ (ofStored q').units places := by
  by_cases htiny : IsTiny q
  · rw [units_eq_zero hplaces hpos (hlt.le.trans hle) hround htiny]
    exact Nat.zero_le _
  · have htiny' : ¬ IsTiny q' := by
      obtain ⟨b, -, hb⟩ := exists_isTiny_iff
      rw [hb] at htiny ⊢
      exact fun h => htiny (hlt.trans h)
    -- The unit between the numbers is sixteen times what the digits can miss.
    have hup := (abs_le.1 (ofStored_near (hlt.le.trans hle) hround htiny).2).2
    have hdown := (abs_le.1 (ofStored_near hle hround' htiny').2).1
    have hgap := add_unit_le hpos hround hround' hlt
    have hunit := mul_two_zpow_le_unit hpos
    have hdigits : (ofStored q).coefficient * (10 : ℚ) ^ (ofStored q).exponent ≤
        (ofStored q').coefficient * (10 : ℚ) ^ (ofStored q').exponent := by
      norm_num only at hup hdown hunit
      linarith
    rw [units_eq_floor, units_eq_floor]
    refine Nat.floor_mono ?_
    gcongr

end Decimal

namespace Written

theorem readDigits_eq : ∀ (cs : List Char) (n : ℕ),
    n * 10 ^ cs.length + digitsValue cs < 10 * coefficientLimit →
      readDigits n cs = (n * 10 ^ cs.length + digitsValue cs, cs.length)
  | [], n, _ => by simp [readDigits, digitsValue]
  | c :: cs, n, h => by
    have hvalue : n * 10 ^ (c :: cs).length + digitsValue (c :: cs) =
        (10 * n + digitValue c) * 10 ^ cs.length + digitsValue cs := by
      rw [digitsValue_cons, List.length_cons, pow_succ]
      ring
    have hn : n < coefficientLimit := by
      have hpow := Nat.mul_le_mul_left (10 * n) (Nat.one_le_pow cs.length 10 (by decide))
      have hfirst : n * 10 ^ (c :: cs).length = 10 * n * 10 ^ cs.length := by
        rw [List.length_cons, pow_succ]
        ring
      omega
    rw [readDigits, if_pos hn, readDigits_eq cs _ (hvalue ▸ h), hvalue]
    rfl

/-- A numeral without an exponent whose digits are all read. -/
theorem readParts_eq {w : Written} (hexponent : w.exponent = 0)
    (h : digitsValue (w.whole ++ w.fraction) < 10 * coefficientLimit) :
    w.readParts = (digitsValue (w.whole ++ w.fraction), -(w.fraction.length : ℤ)) := by
  rw [digitsValue_append] at h ⊢
  have hwhole : readDigits 0 w.whole = (digitsValue w.whole, w.whole.length) := by
    have hle := Nat.mul_le_mul_left (digitsValue w.whole)
      (Nat.one_le_pow w.fraction.length 10 (by decide))
    rw [readDigits_eq _ _ (by omega), zero_mul, zero_add]
  rw [readParts, hwhole]
  simp only [readDigits_eq _ _ h, hexponent, exponentLimit]
  simp

theorem balance_spec : ∀ (fuel : ℕ) (state : ℕ × ℤ), state.2 ≤ 0 → 0 < state.1 →
    (balance fuel state).1 ≤ state.1 ∧ state.2 ≤ (balance fuel state).2 ∧
      (balance fuel state).2 ≤ 0 ∧ 0 < (balance fuel state).1 ∧
      ((balance fuel state).1 : ℚ) * 10 ^ (balance fuel state).2 = state.1 * 10 ^ state.2
  | 0, _, hexponent, hpos => ⟨le_rfl, le_rfl, hexponent, hpos, rfl⟩
  | fuel + 1, (value, exponent), hexponent, hpos => by
    dsimp only at hexponent hpos ⊢
    rw [balance, if_neg (by omega)]
    split
    · next h =>
      obtain ⟨m, rfl⟩ := Nat.dvd_of_mod_eq_zero h.2
      rw [Nat.mul_div_cancel_left _ (by norm_num)]
      obtain ⟨hle, hlow, hhigh, hpos', hvalue⟩ :=
        balance_spec fuel (m, exponent + 1) (by dsimp only; omega) (by dsimp only; omega)
      dsimp only at hle hlow hvalue
      refine ⟨by omega, by omega, hhigh, hpos', ?_⟩
      rw [hvalue, zpow_add_one₀ (by norm_num)]
      push_cast
      ring
    · exact ⟨le_rfl, le_rfl, hexponent, hpos, rfl⟩

/-- A number of nineteen digits is the sum of its two parts. -/
theorem stands_twoParts {n : ℕ} (hn : 0 < n) (hle : n ≤ 13 * 10 ^ 18) :
    (twoParts n).Stands 0 n := by
  have hone : (1 : ℚ) ≤ n := by exact_mod_cast hn
  have hle' : (n : ℚ) ≤ 13 * 10 ^ 18 := by exact_mod_cast hle
  obtain ⟨v, hv⟩ := exists_roundsTo (q := n) (by
    rw [Nat.abs_cast]
    exact hle'.trans ((by norm_num : (13 * 10 ^ 18 : ℚ) ≤ 2 ^ (64 : ℤ)).trans
      (two_zpow_le (by norm_num))))
  obtain ⟨m, hm⟩ := hv.keeps (u := 0) (IsMultiple.intCast n le_rfl)
  rw [zpow_zero, mul_one] at hm
  subst hm
  have herror : |(m : ℚ) - n| ≤ 2 ^ (-52 : ℤ) * n := by
    have hround := hv.error_le (w := -60) (by norm_num)
    rw [Nat.abs_cast] at hround
    norm_num at hround ⊢
    linarith
  obtain ⟨hdown, hup⟩ := abs_le.1 herror
  have hlimit : m ≤ splitLimit := by
    have hcast : (m : ℚ) ≤ (splitLimit : ℤ) := by
      norm_num [splitLimit] at hup ⊢
      linarith
    exact_mod_cast hcast
  have hmissed : Binary64.ofInt (n - m) = finite (n - m) := by
    have hmultiple : IsMultiple 0 ((n : ℚ) - m) :=
      (IsMultiple.intCast n le_rfl).sub (IsMultiple.intCast m le_rfl)
    rw [Binary64.ofInt, Int.cast_sub, Int.cast_natCast]
    refine round_of_multiple (by norm_num) (by norm_num) hmultiple ?_
    rw [abs_sub_comm]
    norm_num at herror ⊢
    linarith
  have hparts : twoParts n = ⟨finite m, finite (n - m)⟩ := by
    rw [twoParts, Binary64.ofInt, Int.cast_natCast, hv.round]
    simp [Binary64.toInt?, hlimit, hmissed]
  refine ⟨m, n - m, hparts, round_of_round hv.round, ?_, ?_⟩
  · rw [abs_sub_comm]
    norm_num at herror hdown ⊢
    linarith
  · simp

end Written

namespace Twofold

variable {n : ℕ} {X C : ℚ} {x y : Twofold}

theorem Stands.repeat (hy : IsFactor C y) (hC : 0 < C) {k : ℕ} (hx : x.Stands n X)
    (hn : n + k ≤ 100) (hX : ∀ i < k, 2 ^ (-300 : ℤ) ≤ X * C ^ i ∧ X * C ^ i ≤ 2 ^ (100 : ℤ)) :
    Stands (n + k) (X * C ^ k) (Nat.repeat (·.times y) k x) := by
  induction k with
  | zero => simpa [Nat.repeat] using hx
  | succ k ih =>
    obtain ⟨hlow, hhigh⟩ := hX k (Nat.lt_succ_self k)
    have hbefore := ih (by omega) fun i hi => hX i (hi.trans (Nat.lt_succ_self k))
    rw [pow_succ, ← mul_assoc]
    exact hbefore.times hy (by omega) hlow hhigh hC

/-- A few steps downward. -/
theorem Stands.scale {k : ℕ} (hx : x.Stands n X) (hk : k ≤ 5) (hn : n ≤ 50) (hlow : 1 ≤ X)
    (hhigh : X ≤ 2 ^ (100 : ℤ)) : (x.scale (-(k : ℤ))).Stands (n + k) (X * (1 / 10) ^ k) := by
  have hsteps := hx.repeat isFactor_tenth (k := k) (by norm_num) (by omega) (fun i hi => by
    have hpower : (1 / 10 : ℚ) ^ 5 ≤ (1 / 10) ^ i :=
      pow_le_pow_of_le_one (by norm_num) (by norm_num) (by omega)
    have hpower' : (1 / 10 : ℚ) ^ i ≤ 1 := pow_le_one₀ (by norm_num) (by norm_num)
    have hproduct := mul_le_mul hlow hpower (by norm_num) (zero_le_one.trans hlow)
    constructor
    · refine le_trans ?_ hproduct
      exact (two_zpow_le (by norm_num : (-300 : ℤ) ≤ -60)).trans (by norm_num)
    · exact (mul_le_of_le_one_right (zero_le_one.trans hlow) hpower').trans hhigh)
  have hnone : k / 100 = 0 ∧ k % 100 / 10 = 0 ∧ k % 10 = k := by omega
  rw [Twofold.scale, Int.natAbs_neg, Int.natAbs_natCast, hnone.1, hnone.2.1, hnone.2.2]
  rcases Nat.eq_zero_or_pos k with rfl | hpos
  · exact hsteps
  · rw [if_neg (by omega)]
    exact hsteps

end Twofold

namespace Written

/-- The numeral of units of the last of so many places, without the zeros at its end. -/
def ofUnits (places n : ℕ) : Written :=
  let (whole, fraction) := pointDigits places n
  let fraction := fraction.rdropWhile (· == '0')
  ⟨false, whole, if fraction.isEmpty then ['0'] else fraction, 0⟩

variable {places n m t : ℕ}

theorem pointDigits_spec (places n : ℕ) :
    digitsValue ((pointDigits places n).1 ++ (pointDigits places n).2) = n ∧
      (pointDigits places n).2.length = places ∧
      ∀ c ∈ (pointDigits places n).2, isDigit c = true := by
  have hdigits : ∀ c ∈ List.replicate (places + 1 - (Nat.repr n).toList.length) '0' ++
      (Nat.repr n).toList, isDigit c = true := by
    intro c hc
    rcases List.mem_append.1 hc with hzero | hdigit
    · rw [List.eq_of_mem_replicate hzero]
      rfl
    · rw [Nat.repr_eq_ofList_toDigits, String.toList_ofList] at hdigit
      exact Nat.isDigit_of_mem_toDigits (by omega) (Nat.le_refl 10) hdigit
  refine ⟨?_, ?_, fun c hc => hdigits c (List.mem_of_mem_drop hc)⟩
  · rw [pointDigits, List.take_append_drop, digitsValue_append, digitsValue_replicate_zero,
      zero_mul, zero_add, Nat.repr_eq_ofList_toDigits, String.toList_ofList, digitsValue_toDigits]
  · simp only [pointDigits, List.length_drop, List.length_append, List.length_replicate]
    omega

/-- The numeral writes as many units, with no more digits than they have before zeros at their
end. -/
theorem ofUnits_spec (hn : n = m * 10 ^ t) (ht : t ≤ places) :
    digitsValue ((ofUnits places n).whole ++ (ofUnits places n).fraction) * 10 ^ places =
        n * 10 ^ (ofUnits places n).fraction.length ∧
      (ofUnits places n).fraction.length ≤ places + 1 ∧
      digitsValue ((ofUnits places n).whole ++ (ofUnits places n).fraction) ≤
        max m (10 * (n / 10 ^ places)) := by
  obtain ⟨hvalue, hlength, hdigits⟩ := pointDigits_spec places n
  rw [ofUnits]
  rcases hpoint : pointDigits places n with ⟨whole, fraction⟩
  rw [hpoint] at hvalue hlength hdigits
  dsimp only at hvalue hlength hdigits ⊢
  obtain ⟨z, hz, hsplit⟩ := exists_rdropWhile_zero fraction
  have hpow : ∀ k : ℕ, 0 < 10 ^ k := fun k => Nat.pow_pos (by norm_num)
  have hlast := List.rdropWhile_last_not (· == '0') fraction
  have hbegins := List.rdropWhile_prefix (· == '0') (l := fraction)
  rw [hsplit] at hvalue
  generalize fraction.rdropWhile (· == '0') = kept at *
  rcases kept.eq_nil_or_concat' with rfl | ⟨init, c, rfl⟩
  · -- Nothing is left behind the point, where a zero is written.
    obtain rfl : z = places := by simpa [hlength] using hz.symm
    rw [List.append_nil] at hvalue
    have hzero : digitsValue (whole ++ ['0']) = digitsValue whole * 10 := digitsValue_append _ _
    rw [List.isEmpty_nil, if_pos rfl, List.length_singleton, pow_one, hzero]
    refine ⟨?_, by omega, le_max_of_le_right ?_⟩
    · rw [← hvalue, mul_right_comm]
    · rw [← hvalue, Nat.mul_div_cancel _ (hpow z), mul_comm]
  · rw [if_neg (by simp)]
    rw [hlength] at hz
    refine ⟨?_, by omega, le_max_of_le_left ?_⟩
    · rw [← hvalue, hz, pow_add]
      ring
    · -- The last digit is not zero, so that the units have no more zeros at their end.
      have hc : isDigit c = true := hdigits c (hbegins.subset (by simp))
      have hten : ¬ 10 ∣ digitsValue (whole ++ (init ++ [c])) := by
        have hpos := digitValue_pos hc (by simpa using hlast (by simp))
        have hle := digitValue_le hc
        rw [← List.append_assoc, digitsValue_concat]
        omega
      rw [hn] at hvalue
      rcases lt_or_ge z t with hlt | hge
      · obtain ⟨k, rfl⟩ := Nat.exists_eq_add_of_lt hlt
        refine absurd ⟨m * 10 ^ k, Nat.eq_of_mul_eq_mul_right (hpow z) ?_⟩ hten
        rw [hvalue]
        ring
      · obtain ⟨k, rfl⟩ := Nat.exists_eq_add_of_le hge
        refine (Nat.le_mul_of_pos_right _ (hpow k)).trans
          (Nat.eq_of_mul_eq_mul_right (hpow t) (?_ : _ = m * 10 ^ t)).le
        rw [← hvalue]
        ring

/-- What a numeral of nineteen digits with a few places is read as misses it by little. -/
theorem exists_toStored_near {w : Written} (hnegative : w.negative = false)
    (hexponent : w.exponent = 0) (hplaces : w.fraction.length ≤ 5)
    (hle : digitsValue (w.whole ++ w.fraction) ≤ 13 * 10 ^ 18) :
    ∃ z : ℚ, w.toStored = Binary64.round z ∧
      |z - digitsValue (w.whole ++ w.fraction) / 10 ^ w.fraction.length| ≤
        2 ^ (-70 : ℤ) * (digitsValue (w.whole ++ w.fraction) / 10 ^ w.fraction.length) := by
  rw [toStored, readParts_eq hexponent (hle.trans_lt (by decide)), hnegative]
  generalize digitsValue (w.whole ++ w.fraction) = V at *
  generalize w.fraction.length = k at *
  dsimp only
  split
  · next hzero => exact ⟨0, by simp [Binary64.round], by simp [hzero]⟩
  · next hzero =>
    obtain ⟨hbelow, hlow, hhigh, hpos, hsame⟩ :=
      balance_spec 20 (V, -(k : ℤ)) (by dsimp only; omega) (Nat.pos_of_ne_zero hzero)
    rcases hbalanced : balance 20 (V, -(k : ℤ)) with ⟨r, e⟩
    rw [hbalanced] at hbelow hlow hhigh hpos hsame
    dsimp only at hbelow hlow hhigh hpos hsame ⊢
    obtain ⟨j, rfl⟩ := Int.exists_eq_neg_ofNat hhigh
    have hr : (r : ℚ) ≤ 13 * 10 ^ 18 := by exact_mod_cast hbelow.trans hle
    obtain ⟨h, l, hscaled, -, -, herror⟩ := (stands_twoParts hpos (hbelow.trans hle)).scale
      (k := j) (by omega) (by norm_num) (by exact_mod_cast hpos) (by norm_num; linarith)
    have hvalue : (r : ℚ) * (1 / 10) ^ j = V / 10 ^ k := by
      simpa [zpow_neg, div_eq_mul_inv] using hsame
    rw [hvalue] at herror
    refine ⟨h + l, ?_, herror.trans (mul_le_mul_of_nonneg_right ?_ (by positivity))⟩
    · rw [if_neg Bool.false_ne_true, hscaled, Binary64.add]
      cases hround : Binary64.round (h + l) with
      | nan => exact absurd hround (round_ne_nan _)
      | finite v => rfl
      | infinite negative => rfl
    · have hj : (j : ℚ) ≤ 5 := by exact_mod_cast (show j ≤ 5 by omega)
      norm_num
      linarith

/-- A numeral of units of the last place is read as a number that misses them by little. -/
theorem exists_toStored_ofUnits (hplaces : places ≤ 4) (hn : n = m * 10 ^ t) (ht : t ≤ places)
    (hm : m ≤ 13 * 10 ^ 18) (hle : n ≤ 2 ^ 53 * 10 ^ places) :
    ∃ z : ℚ, (ofUnits places n).toStored = Binary64.round z ∧
      |z - n / 10 ^ places| ≤ 2 ^ (-70 : ℤ) * (n / 10 ^ places) := by
  obtain ⟨hvalue, hlength, hdigits⟩ := ofUnits_spec hn ht
  have hwhole : n / 10 ^ places ≤ 2 ^ 53 := Nat.div_le_of_le_mul (hle.trans_eq (mul_comm _ _))
  obtain ⟨z, hz, herror⟩ := exists_toStored_near (w := ofUnits places n) rfl rfl
    (hlength.trans (by omega)) (hdigits.trans (max_le hm (by omega)))
  have hsame : (digitsValue ((ofUnits places n).whole ++ (ofUnits places n).fraction) : ℚ) /
      10 ^ (ofUnits places n).fraction.length = n / 10 ^ places := by
    rw [div_eq_div_iff (by positivity) (by positivity)]
    exact_mod_cast hvalue
  rw [hsame] at herror
  exact ⟨z, hz, herror⟩

end Written

namespace Binary64

variable {places : ℕ} {p q v w : ℚ}

/-- A magnitude is rounded to what the numeral of its units is read as. -/
theorem roundMagnitude_eq (places : ℕ) (q : ℚ) : roundMagnitude places q =
    (Written.ofUnits places ((Decimal.ofStored q).units places)).toStored :=
  rfl

/-- A magnitude is rounded to a multiple of the last place, but for little. -/
theorem exists_roundMagnitude_near (hplaces : places ≤ 4) (hpos : 0 < q) (hle : q ≤ 2 ^ (52 : ℤ))
    (hround : round q = finite q) :
    ∃ z : ℚ, roundMagnitude places q = round z ∧
      |z - (Decimal.ofStored q).units places / 10 ^ places| ≤
        2 ^ (-70 : ℤ) * ((Decimal.ofStored q).units places / 10 ^ places) := by
  have hunits : ∃ m t, (Decimal.ofStored q).units places = m * 10 ^ t ∧ m ≤ 13 * 10 ^ 18 ∧
      t ≤ places := by
    by_cases htiny : Decimal.IsTiny q
    · rw [Decimal.units_eq_zero hplaces hpos hle hround htiny]
      exact ⟨0, 0, by simp, Nat.zero_le _, Nat.zero_le _⟩
    · have hexponent := (Decimal.ofStored_le hpos hle (isMultiple_of_round hround)).2
      obtain ⟨m, t, hn, hm, ht⟩ := Decimal.exists_units places hexponent
      exact ⟨m, t, hn, hm.trans (Decimal.ofStored_near hle hround htiny).1, ht⟩
  obtain ⟨m, t, hn, hm, ht⟩ := hunits
  exact Written.exists_toStored_ofUnits hplaces hn ht hm (Decimal.units_le hplaces hpos hle hround)

theorem roundMagnitude_mono (hplaces : places ≤ 4) (hpos : 0 < p) (hpround : round p = finite p)
    (hqround : round q = finite q) (hq : q ≤ 2 ^ (52 : ℤ)) (hv : roundMagnitude places p = finite v)
    (hw : roundMagnitude places q = finite w) (hle : p ≤ q) : v ≤ w := by
  rcases hle.eq_or_lt with rfl | hlt
  · exact (finite.inj (hv.symm.trans hw)).le
  have hp := hle.trans hq
  rcases (Decimal.units_mono hplaces hpos hq hpround hqround hlt).eq_or_lt with heq | hunits
  · rw [roundMagnitude_eq, heq, ← roundMagnitude_eq, hw] at hv
    exact (finite.inj hv).ge
  · -- A unit more is more than both numerals can be misread by.
    obtain ⟨x, hx, hxnear⟩ := exists_roundMagnitude_near hplaces hpos hp hpround
    obtain ⟨y, hy, hynear⟩ := exists_roundMagnitude_near hplaces (hpos.trans hlt) hq hqround
    have hbound := Decimal.units_le hplaces (hpos.trans hlt) hq hqround
    generalize (Decimal.ofStored p).units places = m at *
    generalize (Decimal.ofStored q).units places = n at *
    have hmn : (m : ℚ) + 1 ≤ n := by exact_mod_cast hunits
    have hn : (n : ℚ) ≤ 2 ^ 53 * 10 ^ 4 := by
      exact_mod_cast
        hbound.trans (Nat.mul_le_mul_left _ (Nat.pow_le_pow_right (by norm_num) hplaces))
    have hunit : (0 : ℚ) < 10 ^ places := by positivity
    have hxy : x ≤ y := by
      have hup := (abs_le.1 hxnear).2
      have hdown := (abs_le.1 hynear).1
      have hmiddle : (m : ℚ) / 10 ^ places + 2 ^ (-70 : ℤ) * (m / 10 ^ places) ≤
          n / 10 ^ places - 2 ^ (-70 : ℤ) * (n / 10 ^ places) := by
        rw [← mul_div_assoc, ← mul_div_assoc, ← add_div, ← sub_div]
        refine div_le_div_of_nonneg_right ?_ hunit.le
        norm_num only at hn ⊢
        linarith
      linarith
    exact le_of_round (hx.symm.trans hv) (hy.symm.trans hw) hxy

theorem roundMagnitude_nonneg (hplaces : places ≤ 4) (hpos : 0 < q) (hle : q ≤ 2 ^ (52 : ℤ))
    (hround : round q = finite q) (hv : roundMagnitude places q = finite v) : 0 ≤ v := by
  obtain ⟨z, hz, hnear⟩ := exists_roundMagnitude_near hplaces hpos hle hround
  have hdown := (abs_le.1 hnear).1
  have hunits : (0 : ℚ) ≤ (Decimal.ofStored q).units places / 10 ^ places := by positivity
  refine le_of_round (q := 0) (by simp [round]) (hz.symm.trans hv) ?_
  norm_num at hdown
  linarith

theorem roundPlaces_of_nonneg (hq : 0 ≤ q) : roundPlaces places (finite q) =
    if q = 0 ∨ 2 ^ (52 : ℤ) < q then finite q else roundMagnitude places q := by
  have hlow : ¬ q < -(2 ^ (52 : ℤ)) := fun h => by linarith [two_zpow_pos 52]
  rw [roundPlaces, twoPow_eq_zpow]
  simp only [hlow, hq.not_gt, or_false, if_false]

theorem roundPlaces_neg_of_nonneg (hq : 0 ≤ q) :
    roundPlaces places (finite (-q)) = (roundPlaces places (finite q)).neg := by
  have hhigh : ¬ 2 ^ (52 : ℤ) < -q := fun h => by linarith [two_zpow_pos 52]
  rw [roundPlaces_of_nonneg hq, roundPlaces, twoPow_eq_zpow, neg_neg]
  simp only [hhigh, neg_eq_zero, neg_lt_neg_iff, false_or, neg_neg_iff_pos]
  rcases hq.eq_or_lt with rfl | hpos
  · simp [neg]
  · simp only [hpos, if_true]
    split <;> rfl

theorem roundPlaces_nonneg (hplaces : places ≤ 4) (hq : 0 ≤ q) (hround : round q = finite q)
    (hv : roundPlaces places (finite q) = finite v) : 0 ≤ v := by
  rw [roundPlaces_of_nonneg hq] at hv
  split at hv
  · exact finite.inj hv ▸ hq
  · next h =>
    obtain ⟨hzero, hle⟩ := not_or.1 h
    exact roundMagnitude_nonneg hplaces (lt_of_le_of_ne hq (Ne.symm hzero)) (not_lt.1 hle) hround hv

theorem roundMagnitude_two_pow (hplaces : places ≤ 4) :
    roundMagnitude places (2 ^ (52 : ℤ)) = finite (2 ^ (52 : ℤ)) := by
  have hpower : (2 : ℚ) ^ (52 : ℤ) = 4503599627370496 := by norm_num
  rw [hpower]
  interval_cases places <;> decide +kernel

theorem roundPlaces_mono_of_nonneg (hplaces : places ≤ 4) (hp : 0 ≤ p)
    (hpround : round p = finite p) (hqround : round q = finite q)
    (hv : roundPlaces places (finite p) = finite v) (hw : roundPlaces places (finite q) = finite w)
    (hle : p ≤ q) : v ≤ w := by
  have hwnonneg := roundPlaces_nonneg hplaces (hp.trans hle) hqround hw
  rw [roundPlaces_of_nonneg hp] at hv
  rw [roundPlaces_of_nonneg (hp.trans hle)] at hw
  by_cases hzero : p = 0
  · rw [if_pos (Or.inl hzero)] at hv
    rwa [← finite.inj hv, hzero]
  have hpos : 0 < p := lt_of_le_of_ne hp (Ne.symm hzero)
  have hqzero : q ≠ 0 := (hpos.trans_le hle).ne'
  simp only [hzero, hqzero, false_or] at hv hw
  by_cases hq : 2 ^ (52 : ℤ) < q
  · rw [if_pos hq] at hw
    obtain rfl := finite.inj hw
    by_cases hbelow : 2 ^ (52 : ℤ) < p
    · rw [if_pos hbelow] at hv
      rwa [← finite.inj hv]
    · rw [if_neg hbelow] at hv
      have hround : round (2 ^ (52 : ℤ)) = finite (2 ^ (52 : ℤ)) :=
        round_of_multiple (u := 0) (by norm_num) (by norm_num) ⟨2 ^ 52, by norm_num⟩ (by norm_num)
      exact (roundMagnitude_mono hplaces hpos hpround hround le_rfl hv
        (roundMagnitude_two_pow hplaces) (not_lt.1 hbelow)).trans hq.le
  · rw [if_neg hq] at hw
    rw [if_neg fun h => hq (h.trans_le hle)] at hv
    exact roundMagnitude_mono hplaces hpos hpround hqround (not_lt.1 hq) hv hw hle

/-- Rounding to decimals keeps the order of numbers of the format. -/
theorem roundPlaces_mono (hplaces : places ≤ 4) (hp : round p = finite p) (hq : round q = finite q)
    (hv : roundPlaces places (finite p) = finite v) (hw : roundPlaces places (finite q) = finite w)
    (hle : p ≤ q) : v ≤ w := by
  have hneg : ∀ {p v : ℚ}, p < 0 → round p = finite p → roundPlaces places (finite p) = finite v →
      round (-p) = finite (-p) ∧ roundPlaces places (finite (-p)) = finite (-v) := by
    intro p v hp hround hv
    rw [← neg_neg p, roundPlaces_neg_of_nonneg (neg_pos.2 hp).le] at hv
    refine ⟨round_neg_self hround, ?_⟩
    cases hmagnitude : roundPlaces places (finite (-p)) <;> rw [hmagnitude] at hv <;> cases hv
    rw [neg_neg]
  rcases lt_or_ge p 0 with hpneg | hpos
  · obtain ⟨hpround, hpv⟩ := hneg hpneg hp hv
    rcases lt_or_ge q 0 with hqneg | hqpos
    · obtain ⟨hqround, hqw⟩ := hneg hqneg hq hw
      exact neg_le_neg_iff.1 (roundPlaces_mono_of_nonneg hplaces (neg_pos.2 hqneg).le hqround
        hpround hqw hpv (neg_le_neg hle))
    · exact (neg_nonneg.1 (roundPlaces_nonneg hplaces (neg_pos.2 hpneg).le hpround hpv)).trans
        (roundPlaces_nonneg hplaces hqpos hq hw)
  · exact roundPlaces_mono_of_nonneg hplaces hpos hp hq hv hw hle

end Binary64
end FilmReport
