import FilmReport.Binary64.Arithmetic
import FilmReport.Proofs.Binary64.Rounding

/-!
Numbers of bounded size. A result of arithmetic of them is one again, with a bound of its own; it is
a multiple of a power of two if they are. Sums stay in the range: a number of at most `2 ^ 64` does
not move a total past `2 ^ 120`, nor what it loses the lost part past `2 ^ 180`, so that no sum is
too long.
-/

set_option autoImplicit false
set_option relaxedAutoImplicit false

namespace FilmReport.Binary64

/-- A value that is rounded to a multiple of `2 ^ u`. -/
def OnGrid (u : ℤ) (q : ℚ) : Prop :=
  u ≤ -1074 ∨ IsMultiple u q

namespace OnGrid

variable {u : ℤ} {p q v : ℚ}

theorem neg (h : OnGrid u q) : OnGrid u (-q) :=
  h.imp_right IsMultiple.neg

theorem add (hp : OnGrid u p) (hq : OnGrid u q) : OnGrid u (p + q) := by
  rcases hp with hu | hp
  · exact Or.inl hu
  · exact hq.imp_right hp.add

theorem of_roundsTo (h : OnGrid u q) (hv : RoundsTo q v) : OnGrid u v :=
  h.imp_right hv.keeps

theorem intCast (hu : u ≤ 0) (n : ℤ) : OnGrid u (n : ℚ) :=
  Or.inr (IsMultiple.intCast n hu)

end OnGrid

/-- A number of bounded size on a grid. -/
def Within (u k : ℤ) (x : Binary64) : Prop :=
  ∃ q, x = finite q ∧ OnGrid u q ∧ |q| ≤ 2 ^ k

section Within

variable {u j k : ℤ} {q : ℚ} {x y : Binary64}

theorem within_round (hq : OnGrid u q) (hk : -1022 ≤ k) (hk' : k ≤ 1022)
    (h : |q| ≤ 2 ^ k + 2 ^ (k - 54)) : Within u k (round q) := by
  have hsize : |q| ≤ 2 ^ (1023 : ℤ) := by
    calc |q| ≤ 2 ^ k + 2 ^ (k - 54) := h
      _ ≤ 2 ^ k + 2 ^ k := add_le_add_right (two_zpow_le (by omega)) _
      _ = 2 ^ (k + 1) := by rw [zpow_add_one₀ two_ne_zero, mul_two]
      _ ≤ 2 ^ (1023 : ℤ) := two_zpow_le (by omega)
  obtain ⟨v, hv⟩ := exists_roundsTo hsize
  exact ⟨v, hv.round, hq.of_roundsTo hv, hv.bounded hk h⟩

theorem within_ofInt (hu : u ≤ 0) (hk : -1022 ≤ k) (hk' : k ≤ 1022) {n : ℤ}
    (h : |(n : ℚ)| ≤ 2 ^ k) : Within u k (ofInt n) :=
  within_round (OnGrid.intCast hu n) hk hk' (h.trans (le_add_of_nonneg_right (two_zpow_pos _).le))

namespace Within

theorem mono (h : Within u j x) (hjk : j ≤ k) : Within u k x := by
  obtain ⟨q, hx, hgrid, hq⟩ := h
  exact ⟨q, hx, hgrid, hq.trans (two_zpow_le hjk)⟩

theorem neg (h : Within u k x) : Within u k x.neg := by
  obtain ⟨q, rfl, hgrid, hq⟩ := h
  exact ⟨-q, rfl, hgrid.neg, by rwa [abs_neg]⟩

theorem add_of_small (hx : Within u k x) (hy : Within u (k - 54) y) (hk : -1022 ≤ k)
    (hk' : k ≤ 1022) : Within u k (x.add y) := by
  obtain ⟨p, rfl, hp, hpk⟩ := hx
  obtain ⟨q, rfl, hq, hqk⟩ := hy
  exact within_round (hp.add hq) hk hk' ((abs_add_le p q).trans (add_le_add hpk hqk))

theorem add (hx : Within u k x) (hy : Within u k y) (hk : -1022 ≤ k) (hk' : k ≤ 1021) :
    Within u (k + 1) (x.add y) := by
  obtain ⟨p, rfl, hp, hpk⟩ := hx
  obtain ⟨q, rfl, hq, hqk⟩ := hy
  refine within_round (hp.add hq) (by omega) (by omega) ?_
  calc |p + q| ≤ 2 ^ k + 2 ^ k := (abs_add_le p q).trans (add_le_add hpk hqk)
    _ = 2 ^ (k + 1) := by rw [zpow_add_one₀ two_ne_zero, mul_two]
    _ ≤ 2 ^ (k + 1) + 2 ^ (k + 1 - 54) := le_add_of_nonneg_right (two_zpow_pos _).le

theorem sub (hx : Within u k x) (hy : Within u k y) (hk : -1022 ≤ k) (hk' : k ≤ 1021) :
    Within u (k + 1) (x.sub y) :=
  hx.add hy.neg hk hk'

end Within
end Within

/-- A multiple of `2 ^ u` of bounded size. -/
def IsNumber (u k : ℤ) (x : Binary64) : Prop :=
  ∃ q, x = finite q ∧ IsMultiple u q ∧ |q| ≤ 2 ^ k

/-- A number by which others can be divided: it is `2 ^ u` at least, or without bound. -/
def IsDivisor (u : ℤ) : Binary64 → Prop
  | finite q => 2 ^ u ≤ |q|
  | infinite _ => True
  | nan => False

section Results

variable {u w k : ℤ} {q : ℚ} {x y : Binary64}

theorem Within.isNumber_round (h : Within u k (round q)) : IsNumber u k (round q) := by
  obtain ⟨v, hv, hgrid, hle⟩ := h
  refine ⟨v, hv, ?_, hle⟩
  rcases hgrid with hu | hgrid
  · exact (isMultiple_of_round hv).mono hu
  · exact hgrid

theorem IsNumber.within (h : IsNumber u k x) : Within u k x := by
  obtain ⟨q, hx, hmultiple, hle⟩ := h
  exact ⟨q, hx, Or.inr hmultiple, hle⟩

theorem IsNumber.isDivisor (h : IsNumber u k x) (hx : x ≠ finite 0) : IsDivisor u x := by
  obtain ⟨q, rfl, hmultiple, -⟩ := h
  exact hmultiple.le_abs fun hq => hx (hq ▸ rfl)

theorem round_ne_nan (q : ℚ) : round q ≠ nan := by
  rw [round]
  split
  · simp
  · split <;> split <;> simp

theorem isDivisor_ofInt {n : ℤ} (h : ofInt n ≠ finite 0) : IsDivisor 0 (ofInt n) := by
  rw [ofInt] at h ⊢
  cases hround : round (n : ℚ) with
  | finite v =>
    rw [hround] at h
    have hmultiple := (IsMultiple.intCast n le_rfl).of_round hround
    exact hmultiple.le_abs fun hv => h (hv ▸ rfl)
  | infinite _ => trivial
  | nan => exact absurd hround (round_ne_nan _)

/-- Integers of 53 binary places are numbers of the format. -/
theorem ofInt_of_natAbs_lt {n : ℤ} (h : n.natAbs < 2 ^ 53) : ofInt n = finite n := by
  have hsmall : |(n : ℚ)| < 2 ^ (0 + 53 : ℤ) := by
    rw [← Int.cast_abs, Int.abs_eq_natAbs]
    exact_mod_cast h
  obtain ⟨v, hv⟩ := exists_roundsTo (hsmall.le.trans (two_zpow_le (by decide)))
  rw [ofInt, hv.round, hv.exact (by decide) (IsMultiple.intCast n le_rfl) hsmall]

/-- What is beyond 53 binary places stays beyond them: there all numbers are even, and the next even
number below is too far away. -/
theorem le_magnitude {q : ℚ} (h : 2 ^ (53 : ℤ) ≤ q) : 2 ^ (53 : ℤ) ≤ magnitude q := by
  have hpos : 0 < q := (two_zpow_pos _).trans_le h
  obtain ⟨k, hk⟩ := isMultiple_magnitude_of_le (u := 1) hpos (by simpa using h)
  have htiny : (2 : ℚ) ^ (-1075 : ℤ) ≤ 2 ^ (-1 : ℤ) := two_zpow_le (by decide)
  have hnear := (abs_sub_le_iff.1 (abs_magnitude_sub_le hpos)).2.trans (add_le_add_right htiny _)
  rw [hk] at hnear ⊢
  norm_num at h hnear ⊢
  have hlow : ((2 ^ 52 - 1 : ℤ) : ℚ) < k := by
    norm_num
    linarith
  have hwhole : (2 ^ 52 : ℤ) ≤ k := by
    have := Int.cast_lt.1 hlow
    omega
  have hcast : ((2 ^ 52 : ℤ) : ℚ) ≤ k := Int.cast_le.2 hwhole
  norm_num at hcast
  linarith

/-- An integer that is rounded to one of 53 binary places is that one. -/
theorem eq_of_ofInt {n m : ℤ} (h : ofInt n = finite m) (hm : m.natAbs < 2 ^ 53) : n = m := by
  have hn : n.natAbs < 2 ^ 53 := by
    by_contra hlarge
    have hsize : (2 : ℚ) ^ (53 : ℤ) ≤ |(n : ℚ)| := by
      rw [← Int.cast_abs, Int.abs_eq_natAbs]
      exact_mod_cast not_lt.1 hlarge
    have hsmall : |(m : ℚ)| < 2 ^ (53 : ℤ) := by
      rw [← Int.cast_abs, Int.abs_eq_natAbs]
      exact_mod_cast hm
    rcases round_eq_finite h with ⟨hzero, -⟩ | ⟨hpos, heq⟩ | ⟨hneg, heq⟩
    · rw [hzero, abs_zero] at hsize
      exact absurd (two_zpow_pos 53) (not_lt.2 hsize)
    · rw [abs_of_pos hpos] at hsize
      rw [heq, abs_of_nonneg (magnitude_nonneg _)] at hsmall
      exact absurd (le_magnitude hsize) (not_le.2 hsmall)
    · rw [abs_of_neg hneg] at hsize
      rw [heq, abs_neg, abs_of_nonneg (magnitude_nonneg _)] at hsmall
      exact absurd (le_magnitude hsize) (not_le.2 hsmall)
  rw [ofInt_of_natAbs_lt hn] at h
  exact_mod_cast finite.inj h

theorem ofInt_ne_zero {n : ℤ} (h : 0 < n) : ofInt n ≠ finite 0 := by
  have hone : (1 : ℚ) ≤ n := by exact_mod_cast h
  have hpos : (0 : ℚ) < n := one_pos.trans_le hone
  rw [ofInt]
  rcases round_pos_cases hpos with hround | hround
  · rw [hround]
    intro hzero
    have hnear := abs_magnitude_sub_le hpos
    rw [finite.inj hzero, zero_sub, abs_neg, abs_of_pos hpos] at hnear
    have htiny : (2 : ℚ) ^ (-1075 : ℤ) ≤ 2 ^ (-1 : ℤ) := two_zpow_le (by decide)
    have hsum := hnear.trans (add_le_add_right htiny _)
    norm_num at hsum
    linarith only [hsum, hone]
  · rw [hround]
    simp

theorem Within.isNumber_add (hx : Within u k x) (hy : Within u k y) (hk : -1022 ≤ k)
    (hk' : k ≤ 1021) : IsNumber u (k + 1) (x.add y) := by
  have hsum := hx.add hy hk hk'
  obtain ⟨p, rfl, -⟩ := hx
  obtain ⟨q, rfl, -⟩ := hy
  exact hsum.isNumber_round

theorem Within.isNumber_div (hx : Within u k x) (hy : IsDivisor w y) (hk : -1022 ≤ k - w)
    (hk' : k - w ≤ 1022) : IsNumber (-1074) (k - w) (x.div y) := by
  obtain ⟨p, rfl, -, hp⟩ := hx
  cases y with
  | finite q =>
    have hpos : 0 < |q| := (two_zpow_pos w).trans_le hy
    have hsize : |p / q| ≤ 2 ^ (k - w) := by
      rw [abs_div, zpow_sub₀ two_ne_zero]
      exact div_le_div₀ (two_zpow_pos k).le hp (two_zpow_pos w) hy
    rw [div, if_neg (abs_pos.1 hpos)]
    exact (within_round (Or.inl le_rfl) hk hk'
      (hsize.trans (le_add_of_nonneg_right (two_zpow_pos _).le))).isNumber_round
  | infinite _ => exact ⟨0, rfl, IsMultiple.zero _, by simpa using (two_zpow_pos _).le⟩
  | nan => exact hy.elim

end Results

namespace RunningSum

variable {u : ℤ} {s : RunningSum} {x : Binary64} {n : ℤ}

structure Bounded (u : ℤ) (s : RunningSum) : Prop where
  total : Within u 120 s.total
  lost : Within u 180 s.lost

theorem Bounded.push (hs : s.Bounded u) (hx : Within u 64 x) : (s.push x).Bounded u := by
  have hsum : Within u 120 (add s.total x) :=
    hs.total.add_of_small (hx.mono (by decide)) (by decide) (by decide)
  have hterm : Within u 120 x := hx.mono (by decide)
  refine ⟨hsum, hs.lost.add_of_small ?_ (by decide) (by decide)⟩
  split
  · have hleft := hs.total.sub hsum (by decide) (by decide)
    exact (hleft.add (hterm.mono (by decide)) (by decide) (by decide)).mono (by decide)
  · have hleft := hterm.sub hsum (by decide) (by decide)
    exact (hleft.add (hs.total.mono (by decide)) (by decide) (by decide)).mono (by decide)

theorem within_of_natAbs (hu : u ≤ 0) (hn : n.natAbs ≤ 2 ^ 64) :
    Within u 64 (Binary64.ofInt n) := by
  refine within_ofInt hu (by decide) (by decide) ?_
  rw [← Int.cast_abs, Int.abs_eq_natAbs, Int.cast_natCast]
  exact_mod_cast hn

/-- A storable integer is added in parts of bounded size. -/
theorem within_parts (hu : u ≤ 0) (hn : n.natAbs ≤ 2 ^ 63) :
    Within u 64 (Binary64.ofInt (parts n).1) ∧ Within u 64 (Binary64.ofInt (parts n).2) := by
  have hsmall : (n.tmod 16384).natAbs ≤ 16384 := by
    rw [Int.natAbs_tmod]
    exact (Nat.mod_lt _ (by decide)).le
  rw [parts]
  exact ⟨within_of_natAbs hu (by omega), within_of_natAbs hu (by omega)⟩

theorem bounded_ofInt (hu : u ≤ 0) (hn : n.natAbs ≤ 2 ^ 63) : (ofInt n).Bounded u := by
  rw [ofInt]
  split
  · obtain ⟨hlarge, hsmall⟩ := within_parts hu hn
    exact ⟨hlarge.mono (by decide), hsmall.mono (by decide)⟩
  · refine ⟨(within_of_natAbs hu (by omega)).mono (by decide), 0, rfl, ?_, ?_⟩
    · exact Or.inr (IsMultiple.zero u)
    · rw [abs_zero]
      exact (two_zpow_pos _).le

theorem Bounded.pushInt (hs : s.Bounded u) (hu : u ≤ 0) (hn : n.natAbs ≤ 2 ^ 63) :
    (s.pushInt n).Bounded u := by
  rw [RunningSum.pushInt]
  split
  · obtain ⟨hlarge, hsmall⟩ := within_parts hu hn
    exact (hs.push hlarge).push hsmall
  · exact hs.push (within_of_natAbs hu (by omega))

theorem Bounded.isNumber_value (hs : s.Bounded u) : IsNumber u 181 s.value := by
  have hfinite : s.lost.isFinite = true := by
    obtain ⟨q, hq, -⟩ := hs.lost
    rw [hq, isFinite]
  rw [RunningSum.value, if_pos hfinite]
  exact (hs.total.mono (by decide)).isNumber_add hs.lost (by decide) (by decide)

end RunningSum

end FilmReport.Binary64
