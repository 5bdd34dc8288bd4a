import Mathlib.Data.List.TakeWhile
import Mathlib.Data.Nat.Digits.Defs
import FilmReport.Decimal.Stored
import FilmReport.Proofs.Decimal.Twofold

/-!
A number of the format that is rounded to decimals is a number of the format again: neither the way
to its digits nor the way back leaves the range.
-/

set_option autoImplicit false
set_option relaxedAutoImplicit false

namespace FilmReport

namespace Decimal

open Binary64

/-- A stage upward: its bound is about `2 ^ b` at least, its factor `2 ^ e`, and a step from below
the bound stays below `2 ^ 80`. -/
structure Stage.Rises (stage : Stage) (b e : ℤ) : Prop where
  spans : ∃ c f, (∃ q, stage.bound = finite q ∧ 2 ^ b ≤ q ∧ q ≤ 2 ^ c) ∧ stage.factor.Spans e f ∧
    c + f + 1 ≤ 80 ∧ c ≤ 80 ∧ f ≤ 400
  factor : 1 ≤ e
  shift : stage.shift ≤ 0

theorem Stage.Rises.spans_times {stage : Stage} {i j b e : ℤ} (hstage : stage.Rises b e)
    {x : Twofold} (hx : x.Spans i j) (hbelow : Binary64.lt x.high stage.bound = true)
    (hi : -1000 ≤ i + e) : (x.times stage.factor).Spans (i + e - 1) 80 := by
  obtain ⟨c, f, ⟨q, hq, -, hqc⟩, hfactor, hreach, hc, hf⟩ := hstage.spans
  obtain ⟨a, l, rfl, hai, -, hrest⟩ := hx
  rw [hq] at hbelow
  have hac : a ≤ 2 ^ c := (of_decide_eq_true hbelow).le.trans hqc
  have hspans : Twofold.Spans i c ⟨finite a, finite l⟩ := ⟨a, l, rfl, hai, hac, hrest⟩
  exact (hspans.times hfactor hi (by omega) (by omega) (by omega)).mono le_rfl hreach

/-- A number on its way upward to its digits. -/
structure Rising (i : ℤ) (state : Twofold × ℤ) : Prop where
  spans : state.1.Spans i 80
  exponent : state.2 ≤ 0

/-- Steps upward as long as a number is below a bound. -/
abbrev climbUp : Stage → ℕ → Twofold × ℤ → Twofold × ℤ :=
  climb fun b x => Binary64.lt x b

theorem climbUp_succ (stage : Stage) (fuel : ℕ) (x : Twofold) (exponent : ℤ) :
    climbUp stage (fuel + 1) (x, exponent) =
      if Binary64.lt x.high stage.bound then
        climbUp stage fuel (x.times stage.factor, exponent + stage.shift)
      else (x, exponent) :=
  rfl

theorem Rising.climbUp {stage : Stage} {i b e : ℤ} (hstage : stage.Rises b e)
    (hi : -1000 ≤ i + e) : ∀ (fuel : ℕ) {state : Twofold × ℤ}, Rising i state →
      Rising i (climbUp stage fuel state)
  | 0, _, h => h
  | fuel + 1, (x, exponent), h => by
    have hgrows := hstage.factor
    have hexponent := h.exponent
    have hshift := hstage.shift
    rw [climbUp_succ]
    by_cases hbelow : Binary64.lt x.high stage.bound = true
    · rw [if_pos hbelow]
      refine Rising.climbUp hstage hi fuel ⟨?_, ?_⟩
      · exact (hstage.spans_times h.spans hbelow hi).mono (by omega) le_rfl
      · dsimp only at hexponent ⊢
        omega
    · rw [if_neg hbelow]
      exact h

/-- A stage brings a number near its bound, or past it, if a single step does. -/
theorem Rising.climbUp_succ {stage : Stage} {i i' b e : ℤ} (hstage : stage.Rises b e)
    (hi : -1000 ≤ i + e) (hib : i' ≤ b) (hie : i' ≤ i + e - 1) (hi' : -1000 ≤ i' + e) (fuel : ℕ) :
    ∀ {state : Twofold × ℤ}, Rising i state → Rising i' (Decimal.climbUp stage (fuel + 1) state)
  | (x, exponent), h => by
    have hexponent := h.exponent
    have hshift := hstage.shift
    rw [Decimal.climbUp_succ]
    by_cases hbelow : Binary64.lt x.high stage.bound = true
    · rw [if_pos hbelow]
      refine Rising.climbUp hstage hi' fuel ⟨?_, ?_⟩
      · exact (hstage.spans_times h.spans hbelow hi).mono hie le_rfl
      · dsimp only at hexponent ⊢
        omega
    · rw [if_neg hbelow]
      obtain ⟨-, -, ⟨q, hq, hbq, -⟩, -⟩ := hstage.spans
      obtain ⟨a, l, rfl, -, haj, hrest⟩ := h.spans
      rw [hq] at hbelow
      have hqa : q ≤ a := not_lt.1 fun h => hbelow (decide_eq_true h)
      exact ⟨⟨a, l, rfl, (two_zpow_le hib).trans (hbq.trans hqa), haj, hrest⟩, hexponent⟩

theorem exists_bound {n e i j : ℤ} (he : -400 ≤ e) (he' : e ≤ 400) (hi : -900 ≤ i) (hj : j ≤ 1000)
    (hlow : twoPow (i + 1) ≤ n * tenPow e) (hhigh : n * tenPow e ≤ twoPow j) :
    ∃ q, ofScaled n e = finite q ∧ 2 ^ i ≤ q ∧ q ≤ 2 ^ j := by
  have hzero : |((0 : ℤ) : ℚ) * tenPow 0| ≤ twoPow (i - 40) := by
    rw [twoPow_eq_zpow]
    simpa using (two_zpow_pos _).le
  obtain ⟨a, l, hal, hai, haj, -⟩ := Twofold.spans_ofScaled (m := 0) (f := 0) he he' (by decide)
    (by decide) hi hj hlow hhigh hzero
  exact ⟨a, (Twofold.mk.inj hal).1, hai, haj⟩

theorem rises_first :
    Stage.Rises ⟨.ofScaled 9223372036854774784 (-101), .ten100, -100⟩ (-300) 331 where
  spans := by
    have hbound := exists_bound (n := 9223372036854774784) (e := -101) (i := -300) (j := -271)
      (by decide) (by decide) (by decide) (by decide) (by decide +kernel) (by decide +kernel)
    exact ⟨_, _, hbound, Twofold.spans_ten100, by decide, by decide, by decide⟩
  factor := by decide
  shift := by decide

theorem rises_second :
    Stage.Rises ⟨.ofScaled 9223372036854774784 (-11), .ten10, -10⟩ 0 32 where
  spans := by
    have hbound := exists_bound (n := 9223372036854774784) (e := -11) (i := 0) (j := 30)
      (by decide) (by decide) (by decide) (by decide) (by decide +kernel) (by decide +kernel)
    exact ⟨_, _, hbound, Twofold.spans_ten10, by decide, by decide, by decide⟩
  factor := by decide
  shift := by decide

theorem rises_third : Stage.Rises ⟨.ofScaled 922337203685477478 0, .ten, -1⟩ 0 2 where
  spans := by
    have hbound := exists_bound (n := 922337203685477478) (e := 0) (i := 0) (j := 62)
      (by decide) (by decide) (by decide) (by decide) (by decide +kernel) (by decide +kernel)
    exact ⟨_, _, hbound, Twofold.spans_ten, by decide, by decide, by decide⟩
  factor := by decide
  shift := by decide

/-- A magnitude up to `2 ^ 52` is brought to its digits by steps upward. -/
theorem placed_of_le {q : ℚ} (hle : q ≤ 2 ^ (52 : ℤ)) : placed q =
    stagesUp.foldl (fun state stage => climbUp stage 20 state) (⟨finite q, finite 0⟩, 0) := by
  obtain ⟨limit, hlimit, hlow, -⟩ := exists_bound (n := 9223372036854774784) (e := 0) (i := 61)
    (j := 64) (by decide) (by decide) (by decide) (by decide) (by decide +kernel)
    (by decide +kernel)
  have hbelow : ¬ limit < q :=
    not_lt.2 (hle.trans ((two_zpow_le (by decide)).trans hlow))
  rw [placed, hlimit]
  simp only [Binary64.lt, hbelow, decide_false, Bool.false_eq_true, if_false]
  rfl

/-- It stays within the range. -/
theorem rising_placed {q : ℚ} (hq : 0 < q) (hle : q ≤ 2 ^ (52 : ℤ))
    (hmultiple : IsMultiple (-1074) q) : Rising (-900) (placed q) := by
  have hstart : Rising (-1074) (⟨finite q, finite 0⟩, 0) := by
    refine ⟨⟨q, 0, rfl, ?_, hle.trans (two_zpow_le (by decide)), ?_, hmultiple⟩, le_rfl⟩
    · exact (hmultiple.le_abs hq.ne').trans_eq (abs_of_pos hq)
    · rw [abs_zero]
      exact mul_nonneg (two_zpow_pos _).le hq.le
  have hfirst : Rising (-900) _ :=
    hstart.climbUp_succ rises_first (by decide) (by decide) (by decide) (by decide) 19
  have hup := (hfirst.climbUp rises_second (by decide) 20).climbUp rises_third (by decide) 20
  rwa [placed_of_le hle]

theorem wholePart_le (q : ℚ) : (wholePart (finite q) : ℚ) ≤ |q| := by
  have hfloor : ∀ p : ℚ, 0 ≤ p → ((p.floor.toNat : ℕ) : ℚ) ≤ p := by
    intro p hp
    have hnonneg : 0 ≤ ⌊p⌋ := Int.floor_nonneg.2 hp
    have hcast : ((p.floor.toNat : ℕ) : ℚ) = ⌊p⌋ := by
      exact_mod_cast Int.toNat_of_nonneg hnonneg
    rw [hcast]
    exact Int.floor_le p
  rw [wholePart]
  split
  · next h =>
    rw [abs_of_neg h]
    exact hfloor (-q) (neg_nonneg.2 h.le)
  · next h =>
    rw [abs_of_nonneg (not_lt.1 h)]
    exact hfloor q (not_lt.1 h)

theorem ofStored_le {q : ℚ} (hq : 0 < q) (hle : q ≤ 2 ^ (52 : ℤ))
    (hmultiple : IsMultiple (-1074) q) :
    (ofStored q).coefficient ≤ 2 ^ 81 ∧ (ofStored q).exponent ≤ 0 := by
  have hplaced := rising_placed hq hle hmultiple
  rw [ofStored]
  rcases hstate : placed q with ⟨x, exponent⟩
  rw [hstate] at hplaced
  obtain ⟨⟨a, l, hx, hai, haj, hl, -⟩, hexponent⟩ := hplaced
  dsimp only at hx hexponent
  subst hx
  refine ⟨?_, hexponent⟩
  have ha : 0 ≤ a := (two_zpow_pos _).le.trans hai
  have hwhole := wholePart_le a
  have hrest := wholePart_le l
  have hsmall : (2 : ℚ) ^ (-40 : ℤ) * a ≤ 1 * a := by
    refine mul_le_mul_of_nonneg_right ?_ ha
    norm_num
  rw [abs_of_nonneg ha] at hwhole
  have hsum : wholePart (finite a) + wholePart (finite l) ≤ 2 ^ 81 := by
    have hpower : (2 : ℚ) ^ (80 : ℤ) = 2 ^ 80 := by norm_num
    rw [hpower] at haj
    have hcast : ((wholePart (finite a) + wholePart (finite l) : ℕ) : ℚ) ≤ 2 ^ 81 := by
      push_cast
      linarith
    exact_mod_cast hcast
  dsimp only
  split
  · omega
  · exact hsum

theorem roundAt_le {d : Decimal} {m : ℕ} (places : ℕ) (hcoefficient : d.coefficient ≤ m)
    (hexponent : d.exponent ≤ 0) (hm : 1 ≤ m) : (d.roundAt (-places)).coefficient *
      Nat.pow 10 ((d.roundAt (-places)).exponent + places).toNat ≤ m * 10 ^ places := by
  rw [roundAt]
  split
  · have hpower : (10 : ℕ) ^ (d.exponent + places).toNat ≤ 10 ^ places :=
      Nat.pow_le_pow_right (by norm_num) (by omega)
    exact Nat.mul_le_mul hcoefficient hpower
  · have hdigits : ∀ p : ℕ, (d.coefficient / p + 5) / 10 ≤ m := by
      intro p
      have := Nat.div_le_self d.coefficient p
      omega
    simp only [neg_add_cancel, Int.toNat_zero]
    refine (Nat.mul_le_mul (hdigits _) le_rfl).trans ?_
    exact Nat.mul_le_mul_left m (Nat.one_le_pow _ _ (by norm_num))

end Decimal

namespace Written

open Binary64

theorem digitValue_lt (c : Char) : digitValue c < 2 ^ 32 :=
  (Nat.sub_le _ _).trans_lt c.val.toNat_lt

theorem readDigits_le {m : ℕ} (hm : 10 * coefficientLimit + 2 ^ 32 ≤ m) :
    ∀ (cs : List Char) {n : ℕ}, n ≤ m →
      (readDigits n cs).1 ≤ m ∧ (readDigits n cs).2 ≤ cs.length
  | [], _, hn => ⟨hn, le_rfl⟩
  | c :: cs, n, hn => by
    rw [readDigits]
    split
    · next hlt =>
      have hc := digitValue_lt c
      obtain ⟨hvalue, hcount⟩ := readDigits_le hm cs (n := 10 * n + digitValue c) (by omega)
      exact ⟨hvalue, Nat.succ_le_succ hcount⟩
    · exact ⟨hn, Nat.zero_le _⟩

theorem readParts_le (w : Written) (hexponent : w.exponent = 0) :
    w.readParts.1 ≤ 2 ^ 65 ∧ w.readParts.2.natAbs ≤ max w.whole.length w.fraction.length := by
  rw [readParts, hexponent]
  obtain ⟨hwhole, htaken⟩ := readDigits_le (m := 2 ^ 65) (by decide) w.whole (Nat.zero_le _)
  obtain ⟨hvalue, hmore⟩ := readDigits_le (m := 2 ^ 65) (by decide) w.fraction hwhole
  rcases hread : readDigits 0 w.whole with ⟨n, taken⟩
  rw [hread] at htaken hvalue hmore
  rcases hread' : readDigits n w.fraction with ⟨value, more⟩
  rw [hread'] at hvalue hmore
  dsimp only at htaken hvalue hmore ⊢
  rw [hread']
  refine ⟨hvalue, ?_⟩
  dsimp only
  rw [exponentLimit]
  omega

theorem balance_le : ∀ (fuel : ℕ) (state : ℕ × ℤ), 0 < state.1 → state.1 ≤ 2 ^ 65 →
    0 < (balance fuel state).1 ∧ (balance fuel state).1 ≤ 2 ^ 65 ∧
      (balance fuel state).2.natAbs ≤ state.2.natAbs
  | 0, _, hpos, hle => ⟨hpos, hle, le_rfl⟩
  | fuel + 1, (value, exponent), hpos, hle => by
    dsimp only at hpos hle
    rw [balance]
    split
    · next h =>
      have hlimit : exactLimit = 1844674407370954956 := rfl
      obtain ⟨hpos', hle', habs⟩ :=
        balance_le fuel (10 * value, exponent - 1) (by dsimp only; omega)
          (by dsimp only; omega)
      dsimp only at habs ⊢
      exact ⟨hpos', hle', by omega⟩
    · split
      · obtain ⟨hpos', hle', habs⟩ :=
          balance_le fuel (value / 10, exponent + 1) (by dsimp only; omega)
            (by dsimp only; omega)
        dsimp only at habs ⊢
        exact ⟨hpos', hle', by omega⟩
      · exact ⟨hpos, hle, le_rfl⟩

/-- The second part of a number is what its first part misses, or nothing. -/
theorem spans_twoParts {n : ℕ} (hn : 0 < n) (hle : n ≤ 2 ^ 65) : (twoParts n).Spans (-1) 66 := by
  have hone : (1 : ℚ) ≤ n := by exact_mod_cast hn
  have habs : |((n : ℤ) : ℚ)| ≤ 2 ^ (65 : ℤ) := by
    rw [Int.cast_natCast, Nat.abs_cast]
    exact_mod_cast hle
  obtain ⟨v, hv⟩ := exists_roundsTo (habs.trans (two_zpow_le (by decide)))
  have htiny : (2 : ℚ) ^ (-1075 : ℤ) ≤ 2 ^ (-60 : ℤ) * n := by
    refine (two_zpow_le (show (-1075 : ℤ) ≤ -60 by decide)).trans ?_
    exact le_mul_of_one_le_right (two_zpow_pos _).le hone
  have herror : |v - n| ≤ 2 ^ (-50 : ℤ) * n := by
    have hround := hv.error
    rw [Int.cast_natCast, Nat.abs_cast] at hround
    refine (hround.trans (add_le_add_right htiny _)).trans ?_
    norm_num
    linarith
  have hlow : 1 / 2 * (n : ℚ) ≤ v := by
    have := (abs_le.1 herror).1
    norm_num at this
    linarith
  have hrest : ∀ l, |l| ≤ 2 ^ (-48 : ℤ) * (n : ℚ) →
      Twofold.Spans (-1) 66 ⟨finite v, finite l⟩ := by
    intro l hl
    refine ⟨v, l, rfl, ?_, ?_, ?_, hv.multiple⟩
    · norm_num
      linarith
    · exact (le_abs_self v).trans (hv.abs_le (by decide) (habs.trans (two_zpow_le (by decide))))
    · refine hl.trans ?_
      norm_num
      linarith
  have hzero : |(0 : ℚ)| ≤ 2 ^ (-48 : ℤ) * (n : ℚ) := by
    rw [abs_zero]
    positivity
  rw [twoParts, Binary64.ofInt, hv.round]
  split
  · next m hm =>
    split
    · obtain ⟨hwhole, rfl⟩ : v.den = 1 ∧ v.num = m := by simpa [Binary64.toInt?] using hm
      have hmissed : |((n - v.num : ℤ) : ℚ)| ≤ 2 ^ (-50 : ℤ) * n := by
        rw [Int.cast_sub, Int.cast_natCast, Rat.coe_int_num_of_den_eq_one hwhole, abs_sub_comm]
        exact herror
      rw [Binary64.ofInt]
      generalize ((n - v.num : ℤ) : ℚ) = missed at hmissed ⊢
      have hsmall : |missed| ≤ 2 ^ (1023 : ℤ) := by
        refine hmissed.trans ((mul_le_of_le_one_left (by linarith only [hone]) ?_).trans ?_)
        · norm_num
        · exact (le_abs_self _).trans (habs.trans (two_zpow_le (by decide)))
      obtain ⟨l, hl⟩ := exists_roundsTo hsmall
      rw [hl.round]
      refine hrest l ?_
      have hround := hl.error.trans (add_le_add_right htiny _)
      have htriangle := abs_add_le (l - missed) missed
      rw [sub_add_cancel] at htriangle
      norm_num at hmissed hround ⊢
      linarith only [hmissed, hround, htriangle, hone]
    · exact hrest 0 hzero
  · exact hrest 0 hzero

end Written

namespace Twofold

open Binary64

/-- Less than a hundred places do not lead out of the range. -/
theorem Spans.exists_scale {x : Twofold} {places : ℤ} (hx : x.Spans (-1) 66)
    (hplaces : places.natAbs < 100) :
    ∃ a l, x.scale places = ⟨.finite a, .finite l⟩ ∧ |a + l| ≤ 2 ^ (1000 : ℤ) := by
  have hsteps : ∀ {by10 by1 : Twofold}, by10.Spans (-35) 34 → by1.Spans (-5) 4 →
      ∀ m n : ℕ, m < 10 → n < 10 →
        (Nat.repeat (·.times by1) n (Nat.repeat (·.times by10) m x)).Spans (-500) 450 := by
    intro by10 by1 h10 h1 m n hm hn
    have hten := h10.repeat hx (n := m) (by omega) (by omega) (by omega)
    have hwide : (Nat.repeat (·.times by10) m x).Spans (-400) 400 :=
      hten.mono (by omega) (by omega)
    have hone := h1.repeat hwide (n := n) (by omega) (by omega) (by omega)
    exact hone.mono (by omega) (by omega)
  have htens : places.natAbs % 100 / 10 < 10 := by omega
  have hones : places.natAbs % 10 < 10 := by omega
  have hnone : places.natAbs / 100 = 0 := by omega
  obtain ⟨a, l, hx', hlow, hhigh, hrest, -⟩ : (x.scale places).Spans (-500) 450 := by
    rw [scale, hnone]
    by_cases hsign : 0 ≤ places
    · simp only [if_pos hsign]
      exact hsteps (spans_ten10.mono (by decide) le_rfl) (spans_ten.mono (by decide) le_rfl) _ _
        htens hones
    · simp only [if_neg hsign]
      exact hsteps (spans_tenth10.mono le_rfl (by decide)) (spans_tenth.mono le_rfl (by decide))
        _ _ htens hones
  refine ⟨a, l, hx', ?_⟩
  have ha : 0 ≤ a := (two_zpow_pos _).le.trans hlow
  have hsmall : |l| ≤ a := hrest.trans (mul_le_of_le_one_left ha (by norm_num))
  calc |a + l| ≤ |a| + |l| := abs_add_le a l
    _ ≤ 2 ^ (450 : ℤ) + 2 ^ (450 : ℤ) := by
      rw [abs_of_nonneg ha]
      exact add_le_add hhigh (hsmall.trans hhigh)
    _ = 2 ^ (451 : ℤ) := by
      rw [← two_mul]
      exact (zpow_one_add₀ two_ne_zero 450).symm
    _ ≤ 2 ^ (1000 : ℤ) := two_zpow_le (by decide)

end Twofold

namespace Written

open Binary64

theorem exists_toStored {w : Written} (hexponent : w.exponent = 0) (hwhole : w.whole.length < 100)
    (hfraction : w.fraction.length < 100) : ∃ v, w.toStored = .finite v := by
  have hparts := w.readParts_le hexponent
  rw [toStored]
  rcases hread : w.readParts with ⟨n, places⟩
  rw [hread] at hparts
  obtain ⟨hn, hplaces⟩ := hparts
  dsimp only at hn hplaces ⊢
  split
  · exact ⟨0, rfl⟩
  · next hzero =>
    have hbalanced := balance_le 20 (n, places) (Nat.pos_of_ne_zero hzero) hn
    rcases hstate : balance 20 (n, places) with ⟨m, rest⟩
    rw [hstate] at hbalanced
    obtain ⟨hm, hle, hrest⟩ := hbalanced
    dsimp only at hm hle hrest ⊢
    have hsmall : rest.natAbs < 100 := by omega
    obtain ⟨a, l, hscaled, hsum⟩ := (spans_twoParts hm hle).exists_scale hsmall
    obtain ⟨v, hv⟩ := exists_roundsTo (hsum.trans (two_zpow_le (by decide)))
    rw [hscaled]
    dsimp only [Binary64.add]
    rw [hv.round]
    split
    · exact ⟨-v, rfl⟩
    · exact ⟨v, rfl⟩

end Written

namespace Binary64

theorem length_pointDigits_le (places : ℕ) {n k : ℕ} (hk : 0 < k) (hn : n < 10 ^ k) :
    (pointDigits places n).1.length ≤ places + 1 + k ∧
      (pointDigits places n).2.length ≤ places + 1 + k := by
  have hdigits : (Nat.repr n).toList.length ≤ k := Nat.repr_length n k hk hn
  simp only [pointDigits, List.length_take, List.length_drop, List.length_append,
    List.length_replicate]
  omega

theorem exists_roundMagnitude {places : ℕ} (hplaces : places ≤ 10) {q : ℚ} (hq : 0 < q)
    (hle : q ≤ 2 ^ (52 : ℤ)) (h : IsMultiple (-1074) q) :
    ∃ v, roundMagnitude places q = finite v := by
  obtain ⟨hcoefficient, hexponent⟩ := Decimal.ofStored_le hq hle h
  have hn := (Decimal.roundAt_le places hcoefficient hexponent (by decide)).trans
    (Nat.mul_le_mul_left _ (Nat.pow_le_pow_right (by decide) hplaces))
  rw [roundMagnitude]
  dsimp only
  generalize (Decimal.roundAt (-places) (Decimal.ofStored q)).coefficient * _ = n at hn ⊢
  have hdigits := length_pointDigits_le places (n := n) (k := 50) (by decide)
    (hn.trans_lt (by decide))
  rcases hpoint : pointDigits places n with ⟨whole, fraction⟩
  rw [hpoint] at hdigits
  obtain ⟨hwhole, hfraction⟩ := hdigits
  dsimp only at hwhole hfraction
  refine Written.exists_toStored rfl ?_ ?_
  · dsimp only
    omega
  · dsimp only
    split
    · decide
    · have htrimmed := List.length_dropWhile_le (· == '0') fraction.reverse
      rw [List.length_reverse] at htrimmed ⊢
      omega

/-- A number that is rounded to decimals is a number. -/
theorem exists_roundPlaces {places : ℕ} (hplaces : places ≤ 10) {q : ℚ}
    (h : IsMultiple (-1074) q) : ∃ v, roundPlaces places (finite q) = finite v := by
  rw [roundPlaces]
  split
  · exact ⟨q, rfl⟩
  · next hrange =>
    obtain ⟨hzero, hhigh, hlow⟩ : q ≠ 0 ∧ q ≤ twoPow 52 ∧ -twoPow 52 ≤ q := by
      simpa only [not_or, not_lt] using hrange
    rw [twoPow_eq_zpow] at hhigh hlow
    split
    · next hneg =>
      obtain ⟨v, hv⟩ := exists_roundMagnitude hplaces (neg_pos.2 hneg) (neg_le.1 hlow) h.neg
      exact ⟨-v, by rw [hv, neg]⟩
    · next hneg =>
      exact exists_roundMagnitude hplaces (lt_of_le_of_ne (not_lt.1 hneg) hzero.symm) hhigh h

end Binary64
end FilmReport
