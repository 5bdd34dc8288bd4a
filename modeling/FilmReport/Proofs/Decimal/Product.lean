import FilmReport.Proofs.Binary64.Order
import FilmReport.Proofs.Decimal.Twofold

/-!
How exact the product of two numbers in two parts is. If the coarse half of one factor has no more
than 26 places, the products of the halves are exact; their sum is kept together with what rounding
it misses, and only the two products in the middle are added with an error. The product misses the
true one by `2 ^ -75` of its size at most (`Twofold.exists_times_near`).
-/

set_option autoImplicit false
set_option relaxedAutoImplicit false

namespace FilmReport

namespace Binary64

theorem IsMultiple.mul {u w : ℤ} {p q : ℚ} (hp : IsMultiple u p) (hq : IsMultiple w q) :
    IsMultiple (u + w) (p * q) := by
  obtain ⟨m, rfl⟩ := hp
  obtain ⟨n, rfl⟩ := hq
  refine ⟨m * n, ?_⟩
  rw [← two_zpow_mul]
  push_cast
  ring

/-- A number of 53 places is not changed by rounding. -/
theorem round_of_multiple {u : ℤ} {z : ℚ} (hu : -1074 ≤ u) (hu' : u ≤ 960) (h : IsMultiple u z)
    (hlt : |z| < 2 ^ (u + 53)) : round z = finite z := by
  obtain ⟨v, hv⟩ := exists_roundsTo (hlt.le.trans (two_zpow_le (by omega)))
  rw [hv.round, hv.exact hu h hlt]

theorem IsMultiple.of_le_round {u : ℤ} {z v : ℚ} (h : round z = finite v) (hle : 2 ^ (u + 52) ≤ z) :
    IsMultiple u v := by
  have hpos : 0 < z := (two_zpow_pos _).trans_le hle
  rcases round_eq_finite h with ⟨hzero, -⟩ | ⟨-, rfl⟩ | ⟨hneg, -⟩
  · exact absurd hzero hpos.ne'
  · exact isMultiple_magnitude_of_le hpos hle
  · exact absurd hpos hneg.not_gt

theorem two_zpow_add_natCast (w : ℤ) (n : ℕ) : (2 : ℚ) ^ (w + n) = 2 ^ n * 2 ^ w := by
  rw [← two_zpow_mul, zpow_natCast, mul_comm]

/-- A number whose 53 binary places end at `2 ^ i`. -/
structure EndsAt (i : ℤ) (a : ℚ) : Prop where
  multiple : IsMultiple i a
  low : 2 ^ (i + 52) ≤ a
  high : a < 2 ^ (i + 53)

namespace EndsAt

variable {i : ℤ} {a : ℚ}

theorem pos (h : EndsAt i a) : 0 < a :=
  (two_zpow_pos _).trans_le h.low

theorem unitExponent_eq (h : EndsAt i a) (hi : -1074 ≤ i) : unitExponent a = i := by
  obtain ⟨hlow, hhigh⟩ := binaryExponent_spec h.pos
  have hbelow := two_zpow_lt_iff.1 (hlow.trans_lt h.high)
  have habove := two_zpow_lt_iff.1 (h.low.trans_lt hhigh)
  unfold unitExponent
  omega

theorem of_round (h : round a = finite a) (ha : 2 ^ (-1022 : ℤ) ≤ a) :
    EndsAt (binaryExponent a - 52) a := by
  have hpos : 0 < a := (two_zpow_pos _).trans_le ha
  obtain ⟨hlow, hhigh⟩ := binaryExponent_spec hpos
  have hexponent := two_zpow_lt_iff.1 (ha.trans_lt hhigh)
  have hunit : unitExponent a = binaryExponent a - 52 := by
    unfold unitExponent
    omega
  refine ⟨hunit ▸ isMultiple_unit hpos h, ?_, ?_⟩
  · rwa [sub_add_cancel]
  · rwa [show binaryExponent a - 52 + 53 = binaryExponent a + 1 by ring]

/-- The halves of a number make it up. -/
theorem exists_halves (h : EndsAt i a) (hi : -1074 ≤ i) (hi' : i ≤ 900) :
    ∃ x t, coarse (finite a) = finite x ∧ (finite a).sub (finite x) = finite t ∧ x + t = a ∧
      IsMultiple (i + 26) x ∧ IsMultiple i t ∧ 0 ≤ x ∧ 0 ≤ t ∧ t < 2 ^ (i + 26) := by
  have hunit : (0 : ℚ) < 2 ^ (i + 26) := two_zpow_pos _
  obtain ⟨n, hn⟩ : ∃ n : ℤ, n = ⌊a / 2 ^ (i + 26)⌋ := ⟨_, rfl⟩
  have hle : n * 2 ^ (i + 26) ≤ a := by
    rw [← le_div_iff₀ hunit, hn]
    exact Int.floor_le _
  have hlt : a < (n + 1) * 2 ^ (i + 26) := by
    rw [← div_lt_iff₀ hunit, hn]
    exact Int.lt_floor_add_one _
  have hnonneg : 0 ≤ n := hn ▸ Int.floor_nonneg.2 (div_nonneg h.pos.le hunit.le)
  have hcoarse : coarse (finite a) = finite (n * 2 ^ (i + 26)) := by
    rw [coarse, if_neg h.pos.ne', if_neg h.pos.not_gt, coarseMagnitude, h.unitExponent_eq hi]
    simp only [twoPow_eq_zpow, hn]
    rfl
  have hmultiple : IsMultiple (i + 26) (n * 2 ^ (i + 26)) := ⟨n, rfl⟩
  have hrest : IsMultiple i (a - n * 2 ^ (i + 26)) := h.multiple.sub (hmultiple.mono (by omega))
  have hsmall : |a - n * 2 ^ (i + 26)| < 2 ^ (i + 26) := by
    rw [abs_of_nonneg (sub_nonneg.2 hle)]
    linarith
  have hround := round_of_multiple hi (by omega) hrest
    (hsmall.trans (two_zpow_lt_iff.2 (by omega)))
  have hhalf : 0 ≤ n * (2 : ℚ) ^ (i + 26) := mul_nonneg (by exact_mod_cast hnonneg) hunit.le
  exact ⟨n * 2 ^ (i + 26), a - n * 2 ^ (i + 26), hcoarse, (sub_finite _ _).trans hround, by ring,
    hmultiple, hrest, hhalf, sub_nonneg.2 hle, (le_abs_self _).trans_lt hsmall⟩

end EndsAt

section Parts

variable {w : ℤ} {e p s R : ℚ} {r : Binary64}

theorem RoundsTo.error_le {q v : ℚ} (h : RoundsTo q v) (hw : -1000 ≤ w) :
    |v - q| ≤ |q| * 2 ^ (-53 : ℤ) + 2 ^ w :=
  h.error.trans (add_le_add_right (two_zpow_le (by omega)) _)

theorem mul_two_zpow_le (hw : w ≤ 800) {n : ℕ} (hn : n ≤ 200) :
    (2 : ℚ) ^ n * 2 ^ w ≤ 2 ^ (1023 : ℤ) := by
  rw [← two_zpow_add_natCast]
  exact two_zpow_le (by omega)

/-- The sum of two numbers, the second of which is much smaller, and what rounding it misses. -/
theorem exists_add_exact (hw : -1000 ≤ w) (hw' : w ≤ 800) (hp : IsMultiple (w + 51) p)
    (hs : IsMultiple (w + 26) s) (hsmall : |s| ≤ 2 ^ 81 * 2 ^ w)
    (hlow : 2 ^ 103 * 2 ^ w ≤ p + s) (hhigh : p + s ≤ 2 ^ 107 * 2 ^ w) :
    ∃ e, (finite p).add (finite s) = finite e ∧
      ((finite p).sub (finite e)).add (finite s) = finite (p + s - e) ∧
      |p + s - e| ≤ 2 ^ 55 * 2 ^ w ∧ IsMultiple (w + 51) e := by
  have hU : (0 : ℚ) < 2 ^ w := two_zpow_pos w
  have habs : |p + s| = p + s := abs_of_pos (by linarith)
  obtain ⟨e, he⟩ := exists_roundsTo (q := p + s)
    (habs.trans_le (hhigh.trans (mul_two_zpow_le hw' (by norm_num))))
  have herror : |p + s - e| ≤ 2 ^ 55 * 2 ^ w := by
    have hround := he.error_le hw
    rw [habs] at hround
    rw [abs_sub_comm]
    norm_num at hround hhigh ⊢
    linarith
  have hmultiple : IsMultiple (w + 51) e := by
    refine IsMultiple.of_le_round he.round (le_trans (le_of_eq ?_) hlow)
    rw [add_assoc]
    exact two_zpow_add_natCast w 103
  have hback : round (p - e) = finite (p - e) := by
    refine round_of_multiple (u := w + 51) (by omega) (by omega) (hp.sub hmultiple) ?_
    have hsum : |p - e| ≤ |p + s - e| + |s| := by
      rw [show p - e = p + s - e - s by ring]
      exact abs_sub _ _
    rw [show w + 51 + 53 = w + (104 : ℕ) by push_cast; ring, two_zpow_add_natCast]
    norm_num at herror hsmall ⊢
    linarith
  have hmissed : round (p - e + s) = finite (p - e + s) := by
    refine round_of_multiple (u := w + 26) (by omega) (by omega)
      (((hp.sub hmultiple).mono (by omega)).add hs) ?_
    rw [show p - e + s = p + s - e by ring, show w + 26 + 53 = w + (79 : ℕ) by push_cast; ring,
      two_zpow_add_natCast]
    norm_num at herror ⊢
    linarith
  refine ⟨e, he.round, ?_, herror, hmultiple⟩
  rw [sub_finite, hback, show p + s - e = p - e + s by ring, ← hmissed]
  rfl

/-- A number and a much smaller one that is known nearly, brought into two parts. -/
theorem exists_two_parts (hw : -1000 ≤ w) (hw' : w ≤ 800) (he : IsMultiple (w + 51) e)
    (hr : Near (2 ^ 15 * 2 ^ w) r R) (hR : |R| ≤ 2 ^ 59 * 2 ^ w)
    (hlow : 2 ^ 103 * 2 ^ w ≤ e + 2 ^ 60 * 2 ^ w) (hhigh : e ≤ 2 ^ 108 * 2 ^ w) :
    ∃ h k, (finite e).add r = finite h ∧ ((finite e).sub (finite h)).add r = finite k ∧
      round h = finite h ∧ 2 ^ 102 * 2 ^ w ≤ h ∧ |k| ≤ 2 ^ (-50 : ℤ) * h ∧
      |h + k - (e + R)| ≤ 2 ^ 16 * 2 ^ w := by
  obtain ⟨c, rfl, hc⟩ := hr
  have hU : (0 : ℚ) < 2 ^ w := two_zpow_pos w
  have hcsize : |c| ≤ 2 ^ 60 * 2 ^ w := by
    have hsum : |c| ≤ |c - R| + |R| := by simpa using abs_add_le (c - R) R
    norm_num at hc hR ⊢
    linarith
  obtain ⟨hclow, hchigh⟩ := abs_le.1 hcsize
  have habs : |e + c| = e + c := by
    refine abs_of_pos ?_
    norm_num at hlow hclow
    linarith
  have hsize : e + c ≤ 2 ^ 109 * 2 ^ w := by
    norm_num at hhigh hchigh ⊢
    linarith
  obtain ⟨h, hh⟩ := exists_roundsTo (q := e + c)
    (habs.trans_le (hsize.trans (mul_two_zpow_le hw' (by norm_num))))
  have herror := hh.error_le hw
  rw [habs] at herror
  have hmissed : |e + c - h| ≤ 2 ^ 57 * 2 ^ w := by
    rw [abs_sub_comm]
    norm_num at herror hsize ⊢
    linarith
  obtain ⟨hmlow, hmhigh⟩ := abs_le.1 hmissed
  have hhlow : 2 ^ 102 * 2 ^ w ≤ h := by
    norm_num at hmhigh hlow hclow ⊢
    linarith
  have hmultiple : IsMultiple (w + 50) h := by
    refine IsMultiple.of_le_round hh.round ?_
    rw [show w + 50 + 52 = w + (102 : ℕ) by push_cast; ring, two_zpow_add_natCast]
    norm_num at hlow hclow ⊢
    linarith
  have hback : round (e - h) = finite (e - h) := by
    refine round_of_multiple (u := w + 50) (by omega) (by omega)
      ((he.mono (by omega)).sub hmultiple) ?_
    have hsum : |e - h| ≤ |e + c - h| + |c| := by
      rw [show e - h = e + c - h - c by ring]
      exact abs_sub _ _
    rw [show w + 50 + 53 = w + (103 : ℕ) by push_cast; ring, two_zpow_add_natCast]
    norm_num at hmissed hcsize ⊢
    linarith
  obtain ⟨k, hk⟩ := exists_roundsTo (q := e - h + c) (by
    rw [show e - h + c = e + c - h by ring]
    exact hmissed.trans (mul_two_zpow_le hw' (by norm_num)))
  have hkerror := hk.error_le hw
  rw [show e - h + c = e + c - h by ring] at hkerror
  have hlast : ((finite e).sub (finite h)).add (finite c) = finite k := by
    rw [sub_finite, hback]
    exact hk.round
  refine ⟨h, k, hh.round, hlast, round_of_round hh.round, hhlow, ?_, ?_⟩
  · have hksize : |k| ≤ |k - (e + c - h)| + |e + c - h| := by
      simpa using abs_add_le (k - (e + c - h)) (e + c - h)
    rw [abs_sub_comm] at herror
    norm_num at herror hkerror hhlow hmhigh ⊢
    linarith
  · have hsum : |h + k - (e + R)| ≤ |k - (e + c - h)| + |c - R| := by
      rw [show h + k - (e + R) = k - (e + c - h) + (c - R) by ring]
      exact abs_add_le _ _
    norm_num at hkerror hmissed hc ⊢
    linarith

/-- What is left of a product, all of it small, is known up to some units. -/
theorem near_rest {d n X Y : ℚ} {x y : Binary64} (hw : -1000 ≤ w) (hw' : w ≤ 800)
    (hx : Near (3 * (2 ^ 10 * 2 ^ w)) x X) (hX : |X| ≤ 2 ^ 56 * 2 ^ w)
    (hy : Near (3 * (2 ^ 10 * 2 ^ w)) y Y) (hY : |Y| ≤ 2 ^ 56 * 2 ^ w) (hd : |d| ≤ 2 ^ 55 * 2 ^ w)
    (hn : |n| ≤ 2 ^ 52 * 2 ^ w) :
    Near (2 ^ 15 * 2 ^ w) ((x.add y).add ((finite d).add (finite n))) (X + Y + (d + n)) ∧
      |X + Y + (d + n)| ≤ 2 ^ 59 * 2 ^ w := by
  have hU : (0 : ℚ) < 2 ^ w := two_zpow_pos w
  obtain ⟨δ, hδ⟩ : ∃ δ : ℚ, δ = 2 ^ 10 * 2 ^ w := ⟨_, rfl⟩
  have hδlow : 2 ^ (-1075 : ℤ) ≤ δ := by
    rw [hδ, ← two_zpow_add_natCast]
    exact two_zpow_le (by omega)
  have hδhigh : δ ≤ 2 ^ (960 : ℤ) := by
    rw [hδ, ← two_zpow_add_natCast]
    exact two_zpow_le (by omega)
  rw [← hδ] at hx hy
  have hXY : |X + Y| ≤ 2 ^ 57 * 2 ^ w := by
    refine (abs_add_le X Y).trans ?_
    norm_num at hX hY ⊢
    linarith
  have hdn : |d + n| ≤ 2 ^ 56 * 2 ^ w := by
    refine (abs_add_le d n).trans ?_
    norm_num at hd hn ⊢
    linarith
  have hall : |X + Y + (d + n)| ≤ 2 ^ 59 * 2 ^ w := by
    refine (abs_add_le _ _).trans ?_
    norm_num at hXY hdn ⊢
    linarith
  have hunits : ∀ {k : ℕ}, k ≤ 59 → (2 : ℚ) ^ k * 2 ^ w ≤ 2 ^ 53 * δ := by
    intro k hk
    rw [hδ, ← mul_assoc, ← pow_add]
    exact mul_le_mul_of_nonneg_right (pow_le_pow_right₀ one_le_two (by omega)) hU.le
  have hcross := hx.add hδlow hδhigh hy (by norm_num) (hXY.trans (hunits (by norm_num)))
  have hends := (near_self d δ).add hδlow hδhigh (near_self n δ) (by norm_num)
    (hdn.trans (hunits (by norm_num)))
  have hsum := hcross.add hδlow hδhigh hends (by norm_num) (hall.trans (hunits le_rfl))
  exact ⟨hsum.mono (by norm_num [hδ]; linarith), hall⟩

/-- What a product is put together from: the large product of the halves is exact, the middle ones
are added with an error, and the rest is small. -/
theorem exists_sum_near {m n X Y : ℚ} {x y : Binary64} (hw : -1000 ≤ w) (hw' : w ≤ 800)
    (hp : IsMultiple (w + 53) p) (hm : IsMultiple (w + 26) m) (hmsmall : |m| ≤ 2 ^ 80 * 2 ^ w)
    (hn : |n| ≤ 2 ^ 52 * 2 ^ w) (hx : Near (3 * (2 ^ 10 * 2 ^ w)) x X) (hX : |X| ≤ 2 ^ 56 * 2 ^ w)
    (hy : Near (3 * (2 ^ 10 * 2 ^ w)) y Y) (hY : |Y| ≤ 2 ^ 56 * 2 ^ w)
    (hlow : 2 ^ 104 * 2 ^ w ≤ p + m + n) (hhigh : p + m + n ≤ 2 ^ 106 * 2 ^ w) :
    ∃ s e h k, round m = finite s ∧ (finite p).add (finite s) = finite e ∧
      (finite e).add ((x.add y).add
        ((((finite p).sub (finite e)).add (finite s)).add (finite n))) = finite h ∧
      ((finite e).sub (finite h)).add ((x.add y).add
        ((((finite p).sub (finite e)).add (finite s)).add (finite n))) = finite k ∧
      round h = finite h ∧ |k| ≤ 2 ^ (-50 : ℤ) * h ∧
      |h + k - (p + m + n + X + Y)| ≤ (2 ^ 28 + 2 ^ 16) * 2 ^ w := by
  obtain ⟨s, hs⟩ := exists_roundsTo (hmsmall.trans (mul_two_zpow_le hw' (by norm_num)))
  have hserror : |s - m| ≤ 2 ^ 28 * 2 ^ w := by
    have hround := hs.error_le hw
    have hU : (0 : ℚ) < 2 ^ w := two_zpow_pos w
    norm_num at hround hmsmall ⊢
    linarith
  have hssmall : |s| ≤ 2 ^ 81 * 2 ^ w := by
    have hsum : |s| ≤ |s - m| + |m| := by simpa using abs_add_le (s - m) m
    norm_num at hserror hmsmall ⊢
    linarith
  obtain ⟨hsdown, hsup⟩ := abs_le.1 hserror
  obtain ⟨hndown, hnup⟩ := abs_le.1 hn
  obtain ⟨e, he, hmissed, hmissedSmall, hemultiple⟩ := exists_add_exact hw hw'
    (hp.mono (by omega)) (hs.keeps hm) hssmall (by norm_num at hlow hsdown hnup ⊢; linarith)
    (by norm_num at hhigh hsup hndown ⊢; linarith)
  obtain ⟨hmdown, hmup⟩ := abs_le.1 hmissedSmall
  obtain ⟨hrest, hall⟩ := near_rest hw hw' hx hX hy hY hmissedSmall hn
  obtain ⟨h, k, hh, hk, hround, -, hksmall, hnear⟩ := exists_two_parts hw hw' hemultiple hrest hall
    (by norm_num at hlow hsdown hnup hmup ⊢; linarith)
    (by norm_num at hhigh hsup hndown hmdown ⊢; linarith)
  rw [← hmissed] at hh hk
  refine ⟨s, e, h, k, hs.round, he, hh, hk, hround, hksmall, ?_⟩
  rw [show h + k - (p + m + n + X + Y) = h + k - (e + (X + Y + (p + s - e + n))) + (s - m) by ring]
  refine (abs_add_le _ _).trans ?_
  rw [add_mul, add_comm]
  exact add_le_add hserror hnear

end Parts

/-- The halves of two numbers, with exact products. -/
structure Halves (w : ℤ) (a c x t y u : ℚ) : Prop where
  left : coarse (finite a) = finite x ∧ (finite a).sub (finite x) = finite t
  right : coarse (finite c) = finite y ∧ (finite c).sub (finite y) = finite u
  large : (finite x).mul (finite y) = finite (x * y)
  middle : (finite x).mul (finite u) = finite (x * u) ∧ (finite t).mul (finite y) = finite (t * y)
  small : (finite t).mul (finite u) = finite (t * u)
  sum : a * c = x * y + (x * u + t * y) + t * u
  large_multiple : IsMultiple (w + 53) (x * y)
  middle_multiple : IsMultiple (w + 26) (x * u + t * y)
  middle_le : |x * u + t * y| ≤ 2 ^ 80 * 2 ^ w
  small_le : |t * u| ≤ 2 ^ 52 * 2 ^ w

namespace EndsAt

variable {i j w : ℤ} {a c : ℚ}

theorem mul_bounds (ha : EndsAt i a) (hc : EndsAt j c) (hw : i + j = w) :
    2 ^ 104 * 2 ^ w ≤ a * c ∧ a * c ≤ 2 ^ 106 * 2 ^ w := by
  have hpower : ∀ n : ℕ, (2 : ℚ) ^ (n + n) * 2 ^ w = 2 ^ (i + n) * 2 ^ (j + n) := by
    intro n
    rw [two_zpow_mul, ← two_zpow_add_natCast, ← hw]
    congr 1
    push_cast
    ring
  constructor
  · rw [hpower 52]
    exact mul_le_mul ha.low hc.low (two_zpow_pos _).le ha.pos.le
  · rw [hpower 53]
    exact mul_le_mul ha.high.le hc.high.le hc.pos.le (two_zpow_pos _).le

/-- Two numbers, one of which has no more than 26 places in its coarse half. -/
theorem exists_products (ha : EndsAt i a) (hc : EndsAt j c) (hw : i + j = w)
    (hhalf : ∃ y, coarse (finite c) = finite y ∧ IsMultiple (j + 27) y) (hi : -900 ≤ i)
    (hi' : i ≤ 400) (hj : -100 ≤ j) (hj' : j ≤ 100) : ∃ x t y u, Halves w a c x t y u := by
  obtain ⟨x, t, hx, ht, rfl, hxm, htm, hx0, ht0, htlt⟩ := ha.exists_halves (by omega) (by omega)
  obtain ⟨y, u, hy, hu, rfl, -, hum, hy0, hu0, hult⟩ := hc.exists_halves (by omega) (by omega)
  obtain ⟨y', hy', hym⟩ := hhalf
  obtain rfl : y = y' := finite.inj (hy.symm.trans hy')
  have hU : (0 : ℚ) < 2 ^ w := two_zpow_pos w
  have hlt : ∀ {p q : ℚ} (m n : ℕ), 0 ≤ p → 0 ≤ q → p < 2 ^ (i + m) → q < 2 ^ (j + n) →
      p * q < 2 ^ (m + n) * 2 ^ w := by
    intro p q m n hp hq hpm hqn
    rw [two_zpow_add_natCast] at hpm hqn
    calc p * q < (2 ^ m * 2 ^ i) * (2 ^ n * 2 ^ j) := mul_lt_mul'' hpm hqn hp hq
      _ = 2 ^ (m + n) * 2 ^ w := by
        rw [← hw, ← two_zpow_mul, pow_add]
        ring
  have hexact : ∀ {v : ℤ} {p q : ℚ} (n : ℕ), IsMultiple v (p * q) → v = w + n → n ≤ 100 →
      0 ≤ p → 0 ≤ q → p * q < 2 ^ (n + 53) * 2 ^ w →
        (finite p).mul (finite q) = finite (p * q) := by
    intro v p q n hmultiple hv hn hp hq hlt
    refine round_of_multiple (by omega) (by omega) hmultiple ?_
    rw [abs_of_nonneg (mul_nonneg hp hq), hv, show w + n + 53 = w + (n + 53 : ℕ) by push_cast; ring,
      two_zpow_add_natCast]
    exact hlt
  have hx53 : x < 2 ^ (i + (53 : ℕ)) := (le_add_of_nonneg_right ht0).trans_lt ha.high
  have hy53 : y < 2 ^ (j + (53 : ℕ)) := (le_add_of_nonneg_right hu0).trans_lt hc.high
  have hxu := hlt 53 26 hx0 hu0 hx53 hult
  have hty := hlt 26 53 ht0 hy0 htlt hy53
  have htu := hlt 26 26 ht0 hu0 htlt hult
  refine ⟨x, t, y, u, ⟨hx, ht⟩, ⟨hy, hu⟩, ?_, ⟨?_, ?_⟩, ?_, by ring, ?_, ?_, ?_, ?_⟩
  · exact hexact 53 (hxm.mul hym) (by rw [← hw]; push_cast; ring) (by norm_num) hx0 hy0
      (hlt 53 53 hx0 hy0 hx53 hy53)
  · exact hexact 26 (hxm.mul hum) (by rw [← hw]; push_cast; ring) (by norm_num) hx0 hu0 hxu
  · exact hexact 27 (htm.mul hym) (by rw [← hw]; push_cast; ring) (by norm_num) ht0 hy0
      (hty.trans (by norm_num [hU]))
  · exact hexact 0 (htm.mul hum) (by rw [← hw]; push_cast; ring) (by norm_num) ht0 hu0
      (htu.trans (by norm_num [hU]))
  · exact (hxm.mul hym).mono (by omega)
  · exact ((hxm.mul hum).mono (by omega)).add ((htm.mul hym).mono (by omega))
  · rw [abs_of_nonneg (add_nonneg (mul_nonneg hx0 hu0) (mul_nonneg ht0 hy0))]
    norm_num at hxu hty ⊢
    linarith
  · rw [abs_of_nonneg (mul_nonneg ht0 hu0)]
    exact htu.le

end EndsAt

end Binary64

namespace Twofold

open Binary64

/-- The product of a number with a factor whose coarse half has no more than 26 places. -/
theorem exists_times_near {i j : ℤ} {a l c m : ℚ} (ha : EndsAt i a) (hc : EndsAt j c)
    (hhalf : ∃ y, coarse (finite c) = finite y ∧ IsMultiple (j + 27) y)
    (hl : |l| ≤ 2 ^ (-50 : ℤ) * a) (hm : |m| ≤ 2 ^ (-50 : ℤ) * c) (hi : -900 ≤ i) (hi' : i ≤ 400)
    (hj : -100 ≤ j) (hj' : j ≤ 100) :
    ∃ h k, times ⟨finite a, finite l⟩ ⟨finite c, finite m⟩ = ⟨finite h, finite k⟩ ∧
      Binary64.round h = finite h ∧ |k| ≤ 2 ^ (-50 : ℤ) * h ∧
      |h + k - (a + l) * (c + m)| ≤ 2 ^ (-75 : ℤ) * (a * c) := by
  obtain ⟨w, hw⟩ : ∃ w, i + j = w := ⟨_, rfl⟩
  obtain ⟨x, t, y, u, hhalves⟩ := ha.exists_products hc hw hhalf hi hi' hj hj'
  obtain ⟨hlow, hhigh⟩ := ha.mul_bounds hc hw
  have ham : |a * m| ≤ 2 ^ 56 * 2 ^ w := by
    have hle := abs_mul_le_mul (abs_of_pos ha.pos).le hm
    norm_num at hle hhigh ⊢
    linarith
  have hlc : |l * c| ≤ 2 ^ 56 * 2 ^ w := by
    have hle := abs_mul_le_mul hl (abs_of_pos hc.pos).le
    norm_num at hle hhigh ⊢
    linarith
  have hlm : |l * m| ≤ 2 ^ 7 * 2 ^ w := by
    have hle := abs_mul_le_mul hl hm
    norm_num at hle hhigh ⊢
    linarith
  have hnear : ∀ {p q : ℚ}, |p * q| ≤ 2 ^ 56 * 2 ^ w →
      Near (3 * (2 ^ 10 * 2 ^ w)) ((finite p).mul (finite q)) (p * q) := by
    intro p q hpq
    have hδ : (2 : ℚ) ^ 10 * 2 ^ w = 2 ^ (w + (10 : ℕ)) := (two_zpow_add_natCast w 10).symm
    refine near_mul (hδ ▸ two_zpow_le (by omega)) (hδ ▸ two_zpow_le (by omega)) (hpq.trans ?_)
    rw [← mul_assoc, ← pow_add]
    exact mul_le_mul_of_nonneg_right (by norm_num) (two_zpow_pos w).le
  obtain ⟨s, e, h, k, hs, he, hh, hk, hround, hksmall, herror⟩ := exists_sum_near (by omega)
    (by omega) hhalves.large_multiple hhalves.middle_multiple hhalves.middle_le hhalves.small_le
    (hnear ham) ham (hnear hlc) hlc (hhalves.sum ▸ hlow) (hhalves.sum ▸ hhigh)
  refine ⟨h, k, ?_, hround, hksmall, ?_⟩
  · have hs' : (finite (x * u)).add (finite (t * y)) = finite s := hs
    simp only [times, hhalves.left.1, hhalves.left.2, hhalves.right.1, hhalves.right.2,
      hhalves.large, hhalves.middle.1, hhalves.middle.2, hhalves.small, hs', he, hh, hk]
  · rw [← hhalves.sum] at herror
    rw [show h + k - (a + l) * (c + m) = h + k - (a * c + a * m + l * c) - l * m by ring]
    refine (abs_sub _ _).trans ((add_le_add herror hlm).trans ?_)
    norm_num at hlow ⊢
    linarith

end Twofold
end FilmReport
