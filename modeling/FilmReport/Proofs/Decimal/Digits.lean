import FilmReport.Proofs.Decimal.Product
import FilmReport.Proofs.Decimal.Stored

/-!
How exact the digits of a number are. Each step towards them multiplies by a power of ten with an
error of `2 ^ -73` of the product at most, and there are no more than forty steps on the way up; what
the decimal misses of the number is hardly more than its last digits, `2 ^ -57` of the number at most
(`Decimal.ofStored_near`). A tiny number is only known to stay tiny (`Decimal.ofStored_tiny`).
-/

set_option autoImplicit false
set_option relaxedAutoImplicit false

namespace FilmReport

namespace Twofold

open Binary64

/-- A factor in two parts that stands nearly for a number. -/
structure IsFactor (C : ℚ) (y : Twofold) : Prop where
  parts : ∃ j c m, y = ⟨finite c, finite m⟩ ∧ EndsAt j c ∧ -100 ≤ j ∧ j ≤ 100 ∧
    (∃ z, coarse (finite c) = finite z ∧ IsMultiple (j + 27) z) ∧ |m| ≤ 2 ^ (-50 : ℤ) * c ∧
    |c + m - C| ≤ 2 ^ (-90 : ℤ) * C

theorem isFactor_ten : IsFactor 10 ten where
  parts := by
    refine ⟨-49, 10, 0, by decide +kernel, ⟨⟨10 * 2 ^ 49, by norm_num⟩, by norm_num, by norm_num⟩,
      by norm_num, by norm_num, ⟨10, by decide +kernel, ⟨10 * 2 ^ 22, by norm_num⟩⟩, by norm_num,
      by norm_num⟩

theorem isFactor_ten10 : IsFactor (10 ^ 10) ten10 where
  parts := by
    refine ⟨-19, 10 ^ 10, 0, by decide +kernel,
      ⟨⟨10 ^ 10 * 2 ^ 19, by norm_num⟩, by norm_num, by norm_num⟩, by norm_num, by norm_num,
      ⟨10 ^ 10, by decide +kernel, ⟨39062500, by norm_num⟩⟩, by norm_num, by norm_num⟩

theorem isFactor_tenth : IsFactor (1 / 10) tenth where
  parts := by
    refine ⟨-56, 3602879701896397 / 2 ^ 55, -3602879701896397 / 2 ^ 109, by decide +kernel,
      ⟨⟨7205759403792794, by norm_num⟩, by norm_num, by norm_num⟩, by norm_num, by norm_num,
      ⟨53687091 / 2 ^ 29, by decide +kernel, ⟨53687091, by norm_num⟩⟩, ?_, ?_⟩
    · rw [abs_le]
      norm_num
    · rw [abs_le]
      norm_num

/-- A number in two parts that stands for another after `n` products. -/
def Stands (n : ℕ) (X : ℚ) (x : Twofold) : Prop :=
  ∃ h k, x = ⟨finite h, finite k⟩ ∧ Binary64.round h = finite h ∧ |k| ≤ 2 ^ (-50 : ℤ) * h ∧
    |h + k - X| ≤ n * 2 ^ (-73 : ℤ) * X

variable {n : ℕ} {X C h k : ℚ} {x y : Twofold}

theorem near_of_stands (hn : n ≤ 100) (hX : 0 < X) (hk : |k| ≤ 2 ^ (-50 : ℤ) * h)
    (herror : |h + k - X| ≤ n * 2 ^ (-73 : ℤ) * X) : |h - X| ≤ 2 ^ (-40 : ℤ) * X := by
  have hnX : n * 2 ^ (-73 : ℤ) * X ≤ 2 ^ (-60 : ℤ) * X := by
    have hn' : (n : ℚ) ≤ 100 := by exact_mod_cast hn
    refine mul_le_mul_of_nonneg_right ?_ hX.le
    norm_num
    linarith
  have htriangle : |h - X| ≤ |h + k - X| + |k| := by
    rw [show h - X = h + k - X - k by ring]
    exact abs_sub _ _
  have hh : h ≤ |h - X| + X := by linarith [le_abs_self (h - X)]
  have hsmall := herror.trans hnX
  norm_num at hk hsmall ⊢
  linarith

theorem Stands.times (hx : Stands n X x) (hy : IsFactor C y) (hn : n ≤ 100)
    (hX : 2 ^ (-300 : ℤ) ≤ X) (hX' : X ≤ 2 ^ (100 : ℤ)) (hC : 0 < C) :
    Stands (n + 1) (X * C) (x.times y) := by
  obtain ⟨h, k, rfl, hround, hk, herror⟩ := hx
  obtain ⟨j, c, m, rfl, hc, hj, hj', hhalf, hm, hcm⟩ := hy.parts
  have hpos : 0 < X := (two_zpow_pos _).trans_le hX
  obtain ⟨hdown, hup⟩ := abs_le.1 (near_of_stands hn hpos hk herror)
  have hlow : 2 ^ (-301 : ℤ) ≤ h := by
    rw [show (-300 : ℤ) = -301 + 1 by norm_num, zpow_add_one₀ two_ne_zero] at hX
    norm_num at hdown
    linarith
  have hhigh : h < 2 ^ (102 : ℤ) := by
    norm_num at hup hX' ⊢
    linarith
  have hh : EndsAt (binaryExponent h - 52) h :=
    .of_round hround ((two_zpow_le (by norm_num)).trans hlow)
  have hexponent := binaryExponent_spec hh.pos
  have hexponentLow := two_zpow_lt_iff.1 (hlow.trans_lt hexponent.2)
  have hexponentHigh := two_zpow_lt_iff.1 (hexponent.1.trans_lt hhigh)
  obtain ⟨h', k', htimes, hround', hk', hproduct⟩ := exists_times_near hh hc hhalf hk hm (by omega)
    (by omega) hj hj'
  refine ⟨h', k', htimes, hround', hk', ?_⟩
  have hP : 0 < X * C := mul_pos hpos hC
  have hcC : c ≤ 5 / 4 * C := by
    have hdown' := (abs_le.1 hm).1
    have hup' := (abs_le.1 hcm).2
    norm_num at hdown' hup'
    linarith [hc.pos]
  have hhc : h * c ≤ 2 * (X * C) := by
    have hle : h ≤ 5 / 4 * X := by
      norm_num at hup
      linarith
    have := mul_le_mul hle hcC hc.pos.le (by linarith)
    linarith
  have hsum : |c + m| ≤ (1 + 2 ^ (-90 : ℤ)) * C := by
    have htriangle : |c + m| ≤ |c + m - C| + |C| := by simpa using abs_add_le (c + m - C) C
    rw [abs_of_pos hC] at htriangle
    linarith
  have hfirst : |(h + k - X) * (c + m)| ≤
      n * 2 ^ (-73 : ℤ) * (X * C) + 2 ^ (-90 : ℤ) * (X * C) := by
    have hmul := abs_mul_le_mul herror hsum
    have hn' : n * 2 ^ (-73 : ℤ) ≤ (1 : ℚ) := by
      have hn' : (n : ℚ) ≤ 100 := by exact_mod_cast hn
      norm_num
      linarith
    have hsmall := mul_le_mul_of_nonneg_right hn' (mul_pos (two_zpow_pos (-90)) hP).le
    linarith
  have hsecond : |X * (c + m - C)| ≤ 2 ^ (-90 : ℤ) * (X * C) := by
    have hmul := abs_mul_le_mul (abs_of_pos hpos).le hcm
    linarith
  have htriangle : |h' + k' - X * C| ≤ |h' + k' - (h + k) * (c + m)| +
      (|(h + k - X) * (c + m)| + |X * (c + m - C)|) := by
    rw [show h' + k' - X * C = h' + k' - (h + k) * (c + m) +
      ((h + k - X) * (c + m) + X * (c + m - C)) by ring]
    exact (abs_add_le _ _).trans (add_le_add_right (abs_add_le _ _) _)
  have hnX : ((n + 1 : ℕ) : ℚ) * 2 ^ (-73 : ℤ) * (X * C) =
      n * 2 ^ (-73 : ℤ) * (X * C) + 2 ^ (-73 : ℤ) * (X * C) := by
    push_cast
    ring
  rw [hnX]
  norm_num only at hproduct hfirst hsecond ⊢
  linarith

end Twofold

namespace Decimal

open Binary64

/-- A stage upward that multiplies by a power of ten and does not lead far past nineteen digits. -/
structure Stage.Multiplies (stage : Stage) (B C : ℚ) : Prop where
  bound : stage.bound = finite B
  pos : 0 < B
  factor : Twofold.IsFactor C stage.factor
  power : (10 : ℚ) ^ (-stage.shift) = C
  one_le : 1 ≤ C
  reach : B * C ≤ 93 * 10 ^ 17

theorem Stage.Multiplies.shifted {stage : Stage} {B C : ℚ} (h : stage.Multiplies B C) (q : ℚ)
    (exponent : ℤ) : q * 10 ^ (-(exponent + stage.shift)) = q * 10 ^ (-exponent) * C := by
  rw [← h.power, mul_assoc, ← zpow_add₀ (by norm_num), neg_add]

theorem multiplies_second :
    Stage.Multiplies ⟨.ofScaled 9223372036854774784 (-11), .ten10, -10⟩
      (6189700196426901 / 67108864) (10 ^ 10) where
  bound := by decide +kernel
  pos := by norm_num
  factor := Twofold.isFactor_ten10
  power := by norm_num
  one_le := by norm_num
  reach := by norm_num

theorem multiplies_third :
    Stage.Multiplies ⟨.ofScaled 922337203685477478 0, .ten, -1⟩ 922337203685477504 10 where
  bound := by decide +kernel
  pos := by norm_num
  factor := Twofold.isFactor_ten
  power := by norm_num
  one_le := by norm_num
  reach := by norm_num

/-- A number on its way up to its digits, after `n` products. -/
structure Follows (n : ℕ) (q : ℚ) (state : Twofold × ℤ) : Prop where
  stands : state.1.Stands n (q * 10 ^ (-state.2))
  low : 2 ^ (-300 : ℤ) ≤ q * 10 ^ (-state.2)
  high : q * 10 ^ (-state.2) ≤ 12 * 10 ^ 18

namespace Follows

variable {n : ℕ} {q B C : ℚ} {stage : Stage} {state : Twofold × ℤ} {x : Twofold} {exponent : ℤ}

theorem exists_high (h : Follows n q state) (hn : n ≤ 100) :
    ∃ a l, state.1 = ⟨finite a, finite l⟩ ∧
      |a - q * 10 ^ (-state.2)| ≤ 2 ^ (-40 : ℤ) * (q * 10 ^ (-state.2)) := by
  obtain ⟨a, l, hx, -, hl, herror⟩ := h.stands
  exact ⟨a, l, hx, Twofold.near_of_stands hn ((two_zpow_pos _).trans_le h.low) hl herror⟩

theorem step (hstage : stage.Multiplies B C) (h : Follows n q (x, exponent)) (hn : n ≤ 100)
    (hbelow : Binary64.lt x.high stage.bound = true) :
    Follows (n + 1) q (x.times stage.factor, exponent + stage.shift) := by
  obtain ⟨a, l, hx, hnear⟩ := h.exists_high hn
  obtain ⟨hstands, hlow, hhigh⟩ := h
  dsimp only at hx hnear hstands hlow hhigh
  have hpos : 0 < q * 10 ^ (-exponent) := (two_zpow_pos _).trans_le hlow
  have hproduct := hstage.shifted q exponent
  have haB : a < B := by
    rw [hx, hstage.bound] at hbelow
    exact of_decide_eq_true hbelow
  have hC : 0 < C := zero_lt_one.trans_le hstage.one_le
  generalize q * 10 ^ (-exponent) = X at *
  have hXB : X ≤ 5 / 4 * B := by
    have hdown := (abs_le.1 hnear).1
    norm_num at hdown
    linarith
  refine ⟨?_, ?_, ?_⟩ <;> dsimp only <;> rw [hproduct]
  · exact hstands.times hstage.factor hn hlow (hhigh.trans (by norm_num)) hC
  · exact hlow.trans (le_mul_of_one_le_right hpos.le hstage.one_le)
  · have hreach := hstage.reach
    have hmul := mul_le_mul_of_nonneg_right hXB hC.le
    linarith

/-- A stage with enough steps ends at its bound. -/
theorem exists_climbUp (hstage : stage.Multiplies B C) : ∀ (fuel : ℕ) {n : ℕ}
    {state : Twofold × ℤ}, Follows n q state → n + fuel ≤ 100 →
      2 * B ≤ q * 10 ^ (-state.2) * C ^ fuel →
        ∃ m ≤ n + fuel, Follows m q (climbUp stage fuel state) ∧
          Binary64.lt (climbUp stage fuel state).1.high stage.bound = false
  | 0, n, state, h, hn, hreach => by
    obtain ⟨a, l, hx, hnear⟩ := h.exists_high hn
    refine ⟨n, le_rfl, h, ?_⟩
    have hB := hstage.pos
    have hdown := (abs_le.1 hnear).1
    rw [show climbUp stage 0 state = state from rfl, hx, hstage.bound]
    refine decide_eq_false (not_lt.2 ?_)
    norm_num at hdown hreach
    linarith
  | fuel + 1, n, (x, exponent), h, hn, hreach => by
    rw [climbUp_succ]
    by_cases hbelow : Binary64.lt x.high stage.bound = true
    · rw [if_pos hbelow]
      obtain ⟨m, hm, hfollows, hend⟩ := exists_climbUp hstage fuel
        (h.step hstage (by omega) hbelow) (by omega) (by
          dsimp only at hreach ⊢
          rwa [hstage.shifted, mul_assoc, ← pow_succ'])
      exact ⟨m, by omega, hfollows, hend⟩
    · rw [if_neg hbelow]
      exact ⟨n, by omega, h, Bool.eq_false_iff.2 hbelow⟩

end Follows

/-- A magnitude below the first bound, which is taken up by a hundred places. -/
def IsTiny (q : ℚ) : Prop :=
  Binary64.lt (finite q) (.ofScaled 9223372036854774784 (-101)) = true

theorem exists_isTiny_iff : ∃ b, 2 ^ (-300 : ℤ) ≤ b ∧ ∀ q, IsTiny q ↔ q < b := by
  obtain ⟨-, -, ⟨b, hb, hlow, -⟩, -⟩ := rises_first.spans
  refine ⟨b, hlow, fun q => ?_⟩
  rw [IsTiny, show Binary64.ofScaled 9223372036854774784 (-101) = _ from hb]
  exact decide_eq_true_iff

/-- A magnitude that is not tiny is followed closely up to its digits. -/
theorem exists_follows {q : ℚ} (hle : q ≤ 2 ^ (52 : ℤ)) (hround : Binary64.round q = finite q)
    (htiny : ¬ IsTiny q) :
    ∃ n ≤ 40, Follows n q (placed q) ∧
      Binary64.lt (placed q).1.high (.ofScaled 922337203685477478 0) = false := by
  have hq : 2 ^ (-300 : ℤ) ≤ q := by
    obtain ⟨b, hlow, hb⟩ := exists_isTiny_iff
    exact hlow.trans (not_lt.1 fun hlt => htiny ((hb q).2 hlt))
  have hpos : 0 < q := (two_zpow_pos _).trans_le hq
  have hstart : Follows 0 q (⟨finite q, finite 0⟩, 0) := by
    refine ⟨⟨q, 0, rfl, hround, ?_, ?_⟩, ?_, ?_⟩
    · rw [abs_zero]
      exact mul_nonneg (two_zpow_pos _).le hpos.le
    · simp
    · simpa using hq
    · norm_num at hle ⊢
      linarith
  have hskip : climbUp ⟨.ofScaled 9223372036854774784 (-101), .ten100, -100⟩ 20
      (⟨finite q, finite 0⟩, 0) = (⟨finite q, finite 0⟩, 0) := by
    rw [climbUp_succ]
    exact if_neg htiny
  obtain ⟨m, hm, hsecond, hend⟩ := hstart.exists_climbUp multiplies_second 20 (by norm_num) (by
    rw [neg_zero, zpow_zero, mul_one]
    calc (2 : ℚ) * (6189700196426901 / 67108864)
        ≤ 2 ^ (-150 : ℤ) * 2 ^ (-150 : ℤ) * (10 ^ 10) ^ 20 := by norm_num
      _ ≤ q * (10 ^ 10) ^ 20 := by
        rw [two_zpow_mul]
        exact mul_le_mul_of_nonneg_right hq (by norm_num))
  rw [placed_of_le hle, stagesUp]
  simp only [List.foldl_cons, List.foldl_nil, hskip]
  generalize climbUp ⟨.ofScaled 9223372036854774784 (-11), .ten10, -10⟩ 20
    (⟨finite q, finite 0⟩, 0) = state at hsecond hend ⊢
  have hbefore : 2 * 922337203685477504 ≤ q * 10 ^ (-state.2) * 10 ^ 20 := by
    obtain ⟨a, l, hx, hnear⟩ := hsecond.exists_high (by omega)
    have hup := (abs_le.1 hnear).2
    rw [hx, multiplies_second.bound] at hend
    have hbound := not_lt.1 (of_decide_eq_false hend)
    generalize q * 10 ^ (-state.2) = X at *
    norm_num at hup
    linarith
  obtain ⟨n, hn, hthird, hlast⟩ := hsecond.exists_climbUp multiplies_third 20 (by omega) hbefore
  exact ⟨n, by omega, hthird, hlast⟩

theorem wholePart_spec {v : ℚ} (hv : 0 ≤ v) :
    (wholePart (finite v) : ℚ) ≤ v ∧ v < wholePart (finite v) + 1 := by
  have hcast : ((v.floor.toNat : ℕ) : ℚ) = ⌊v⌋ := by
    exact_mod_cast Int.toNat_of_nonneg (Int.floor_nonneg.2 hv)
  rw [wholePart, if_neg hv.not_gt, hcast]
  exact ⟨Int.floor_le v, Int.lt_floor_add_one v⟩

theorem wholePart_neg {v : ℚ} (hv : v < 0) : wholePart (finite v) = wholePart (finite (-v)) := by
  rw [wholePart, wholePart, if_pos hv, if_neg (neg_pos.2 hv).not_gt]

/-- The whole parts of a number in two parts make it up but for two. -/
theorem abs_wholeParts_sub_le {a l : ℚ} (hl : |l| ≤ a) :
    |(((if (finite l).isNegative then wholePart (finite a) - wholePart (finite l)
      else wholePart (finite a) + wholePart (finite l) : ℕ) : ℚ)) - (a + l)| ≤ 2 := by
  have ha := wholePart_spec ((abs_nonneg l).trans hl)
  by_cases hneg : l < 0
  · have hrest := wholePart_spec (neg_pos.2 hneg).le
    have hle : wholePart (finite (-l)) ≤ wholePart (finite a) := by
      rw [abs_of_neg hneg] at hl
      have hcast : (wholePart (finite (-l)) : ℚ) < (wholePart (finite a) + 1 : ℕ) := by
        push_cast
        linarith
      exact Nat.lt_succ_iff.1 (by exact_mod_cast hcast)
    rw [if_pos (by simpa [isNegative] using hneg), wholePart_neg hneg, Nat.cast_sub hle, abs_le]
    constructor <;> linarith
  · have hrest := wholePart_spec (not_lt.1 hneg)
    rw [if_neg (by simpa [isNegative] using hneg), Nat.cast_add, abs_le]
    constructor <;> linarith

/-- The digits of a magnitude stand for it but for little. -/
theorem ofStored_near {q : ℚ} (hle : q ≤ 2 ^ (52 : ℤ)) (hround : Binary64.round q = finite q)
    (htiny : ¬ IsTiny q) :
    (ofStored q).coefficient ≤ 13 * 10 ^ 18 ∧
      |(ofStored q).coefficient * 10 ^ (ofStored q).exponent - q| ≤ 2 ^ (-57 : ℤ) * q := by
  obtain ⟨n, hn, hfollows, hend⟩ := exists_follows hle hround htiny
  rw [ofStored]
  rcases hplaced : placed q with ⟨x, exponent⟩
  rw [hplaced] at hfollows hend
  obtain ⟨a, l, rfl, -, hl, herror⟩ := hfollows.stands
  have hlow := hfollows.low
  have hhigh := hfollows.high
  have hpower : (0 : ℚ) < 10 ^ exponent := zpow_pos (by norm_num) _
  have hq' : q = q * 10 ^ (-exponent) * 10 ^ exponent := by
    rw [mul_assoc, ← zpow_add₀ (by norm_num), neg_add_cancel, zpow_zero, mul_one]
  rw [show Binary64.ofScaled 922337203685477478 0 = _ from multiplies_third.bound] at hend
  have hbound := not_lt.1 (of_decide_eq_false hend)
  dsimp only at herror hlow hhigh hbound ⊢
  have hnear := Twofold.near_of_stands (by omega) ((two_zpow_pos _).trans_le hlow) hl herror
  have hparts :=
    abs_wholeParts_sub_le (hl.trans (mul_le_of_le_one_left (by linarith) (by norm_num)))
  generalize q * 10 ^ (-exponent) = X at *
  generalize (if (finite l).isNegative then wholePart (finite a) - wholePart (finite l)
      else wholePart (finite a) + wholePart (finite l)) = c at *
  have hX : 9 * 10 ^ 17 ≤ X := by
    have hup := (abs_le.1 hnear).2
    norm_num at hup
    linarith
  have hdigits : |c - X| ≤ 2 ^ (-57 : ℤ) * X := by
    have htriangle := abs_add_le (c - (a + l)) (a + l - X)
    rw [sub_add_sub_cancel] at htriangle
    have hsteps : n * 2 ^ (-73 : ℤ) * X ≤ 2 ^ (-67 : ℤ) * X := by
      have hn' : (n : ℚ) ≤ 40 := by exact_mod_cast hn
      refine mul_le_mul_of_nonneg_right ?_ (by linarith)
      norm_num
      linarith
    have hmissed := herror.trans hsteps
    norm_num at hmissed ⊢
    linarith
  refine ⟨?_, ?_⟩
  · have hup := (abs_le.1 hdigits).2
    norm_num only at hup
    have hcast : (c : ℚ) ≤ 13 * 10 ^ 18 := by linarith
    exact_mod_cast hcast
  · rw [hq', ← sub_mul, abs_mul, abs_of_pos hpower, ← mul_assoc]
    exact mul_le_mul_of_nonneg_right hdigits hpower.le

theorem climbUp_exponent_le {stage : Stage} (hshift : stage.shift ≤ 0) :
    ∀ (fuel : ℕ) (state : Twofold × ℤ), (climbUp stage fuel state).2 ≤ state.2
  | 0, _ => le_rfl
  | fuel + 1, (x, exponent) => by
    rw [climbUp_succ]
    split
    · refine (climbUp_exponent_le hshift fuel _).trans ?_
      dsimp only
      omega
    · exact le_rfl

/-- The digits of a tiny magnitude begin behind the seventieth place. -/
theorem ofStored_tiny {q : ℚ} (hpos : 0 < q) (hle : q ≤ 2 ^ (52 : ℤ))
    (hmultiple : IsMultiple (-1074) q) (htiny : IsTiny q) :
    (ofStored q).coefficient * (10 : ℚ) ^ (ofStored q).exponent ≤ 10 ^ (-70 : ℤ) := by
  have hexponent : (ofStored q).exponent ≤ -100 := by
    rw [show (ofStored q).exponent = (placed q).2 from rfl, placed_of_le hle, stagesUp]
    simp only [List.foldl_cons, List.foldl_nil]
    refine (climbUp_exponent_le rises_third.shift 20 _).trans
      ((climbUp_exponent_le rises_second.shift 20 _).trans ?_)
    have hdown := climbUp_exponent_le rises_first.shift 19
      (Twofold.times ⟨finite q, finite 0⟩ .ten100, -100)
    rw [climbUp_succ]
    exact (congrArg Prod.snd (if_pos htiny)).trans_le hdown
  have hcoefficient : ((ofStored q).coefficient : ℚ) ≤ 2 ^ 81 := by
    exact_mod_cast (ofStored_le hpos hle hmultiple).1
  calc (ofStored q).coefficient * (10 : ℚ) ^ (ofStored q).exponent
      ≤ 2 ^ 81 * 10 ^ (-100 : ℤ) :=
        mul_le_mul hcoefficient (zpow_le_zpow_right₀ (by norm_num) hexponent)
          (zpow_pos (by norm_num) _).le (by norm_num)
    _ ≤ 10 ^ (-70 : ℤ) := by norm_num

end Decimal
end FilmReport
