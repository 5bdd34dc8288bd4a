import FilmReport.Binary64.Arithmetic
import FilmReport.Proofs.Binary64.Rounding

/-!
Rounding and order. A greater number is not rounded to a smaller one (`le_of_round`), and numbers of
the format that differ are a unit of the smaller one apart (`add_unit_le`).

Zeros in a compensated sum. A zero neither changes the running total nor loses anything, unless the
total left the range; then it stays outside whatever is added, and the lost part no longer matters.
Sums that differ in such a lost part only are taken as the same (`RunningSum.Same`), so that zeros
can be left out of a sum (`RunningSum.value_foldl_push`).
-/

set_option autoImplicit false
set_option relaxedAutoImplicit false

namespace FilmReport.Binary64

variable {q q' v v' : ℚ} {k : ℤ}

theorem binaryExponent_mono (hq : 0 < q) (h : q ≤ q') : binaryExponent q ≤ binaryExponent q' := by
  have hlow := (binaryExponent_spec hq).1
  have hhigh := (binaryExponent_spec (hq.trans_le h)).2
  have hlt := two_zpow_lt_iff.1 (hlow.trans_lt (h.trans_lt hhigh))
  omega

theorem unitExponent_mono (hq : 0 < q) (h : q ≤ q') : unitExponent q ≤ unitExponent q' := by
  unfold unitExponent
  have := binaryExponent_mono hq h
  omega

/-- Of two numbers that differ, each is nearest to a number of units no further than a half away, so
that these numbers cannot stand the other way round. -/
theorem significand_mono (hq : 0 ≤ q) (h : q ≤ q') (u : ℤ) :
    significand q u ≤ significand q' u := by
  rcases h.eq_or_lt with rfl | hlt
  · exact le_rfl
  · have hunits : q / 2 ^ u < q' / 2 ^ u := div_lt_div_of_pos_right hlt (two_zpow_pos u)
    have hdown := (abs_le.1 (abs_significand_sub_le hq u)).2
    have hup := (abs_le.1 (abs_significand_sub_le (hq.trans h) u)).1
    apply Nat.lt_succ_iff.1
    have hcast : (significand q u : ℚ) < (significand q' u + 1 : ℕ) := by
      push_cast
      linarith
    exact_mod_cast hcast

/-- A number is not rounded below a power of two that it reaches. -/
theorem two_zpow_le_magnitude (hk : -1074 ≤ k) (h : 2 ^ k ≤ q) : 2 ^ k ≤ magnitude q := by
  have hpos : 0 < q := (two_zpow_pos k).trans_le h
  obtain ⟨hlow, hhigh⟩ := binaryExponent_spec hpos
  have hexponent : k ≤ binaryExponent q := by
    have := two_zpow_lt_iff.1 (h.trans_lt hhigh)
    omega
  have hunit : unitExponent q ≤ binaryExponent q := by
    unfold unitExponent
    omega
  obtain ⟨n, hn⟩ := (IsMultiple.mono ⟨1, (one_mul _).symm⟩ hunit).exists_nat
    (two_zpow_pos (binaryExponent q)).le
  calc (2 : ℚ) ^ k ≤ 2 ^ binaryExponent q := two_zpow_le hexponent
    _ = significand (2 ^ binaryExponent q) (unitExponent q) * 2 ^ unitExponent q := by
      rw [significand_of_eq hn, ← hn]
    _ ≤ magnitude q := by
      unfold magnitude
      gcongr
      exact significand_mono (two_zpow_pos _).le hlow _

theorem magnitude_mono (hq : 0 < q) (h : q ≤ q') : magnitude q ≤ magnitude q' := by
  rcases (unitExponent_mono hq h).eq_or_lt with heq | hlt
  · unfold magnitude
    rw [← heq]
    gcongr
    exact significand_mono hq.le h _
  · -- The power of two from which the greater number has its unit stands between them.
    have hunit : unitExponent q' = binaryExponent q' - 52 := by
      unfold unitExponent at hlt ⊢
      omega
    have hexponent : binaryExponent q + 1 ≤ binaryExponent q' ∧ -1022 ≤ binaryExponent q' := by
      unfold unitExponent at hlt
      omega
    have hbelow : q ≤ 2 ^ binaryExponent q' :=
      (binaryExponent_spec hq).2.le.trans (two_zpow_le hexponent.1)
    calc magnitude q ≤ 2 ^ binaryExponent q' :=
          magnitude_le hq hexponent.2 (hbelow.trans (le_add_of_nonneg_right (two_zpow_pos _).le))
      _ ≤ magnitude q' :=
          two_zpow_le_magnitude (by omega) (binaryExponent_spec (hq.trans_le h)).1

/-- A greater number is not rounded to a smaller one. -/
theorem le_of_round (hv : round q = finite v) (hv' : round q' = finite v') (h : q ≤ q') :
    v ≤ v' := by
  rcases round_eq_finite hv with ⟨rfl, rfl⟩ | ⟨hpos, rfl⟩ | ⟨hneg, rfl⟩ <;>
    rcases round_eq_finite hv' with ⟨rfl, rfl⟩ | ⟨hpos', rfl⟩ | ⟨hneg', rfl⟩
  · exact le_rfl
  · exact magnitude_nonneg q'
  · exact absurd h hneg'.not_ge
  · exact absurd h hpos.not_ge
  · exact magnitude_mono hpos h
  · exact absurd (hpos.trans_le h) hneg'.not_gt
  · exact neg_nonpos.2 (magnitude_nonneg _)
  · exact (neg_nonpos.2 (magnitude_nonneg _)).trans (magnitude_nonneg q')
  · exact neg_le_neg (magnitude_mono (neg_pos.2 hneg') (neg_le_neg h))

theorem magnitude_magnitude (hq : 0 < q) (h : 0 < magnitude q) :
    magnitude (magnitude q) = magnitude q := by
  have hunit : -1074 ≤ unitExponent q ∧ binaryExponent q + 1 ≤ unitExponent q + 53 := by
    unfold unitExponent
    omega
  have hmultiple : IsMultiple (unitExponent q) (magnitude q) :=
    ⟨significand q (unitExponent q), rfl⟩
  have hle : magnitude q ≤ 2 ^ (unitExponent q + 53) := by
    have hbelow := (binaryExponent_spec hq).2.le.trans (two_zpow_le hunit.2)
    exact magnitude_le hq (by omega) (hbelow.trans (le_add_of_nonneg_right (two_zpow_pos _).le))
  rcases hle.eq_or_lt with heq | hlt
  · rw [heq]
    exact magnitude_eq_self (two_zpow_pos _) (u := unitExponent q + 53) (by omega)
      ⟨1, (one_mul _).symm⟩ (two_zpow_lt_iff.2 (by omega))
  · exact magnitude_eq_self h hunit.1 hmultiple hlt

theorem lt_of_roundMagnitude? (h : roundMagnitude? q = some v) : v < 2 ^ (1024 : ℤ) := by
  simp only [roundMagnitude?, twoPow_eq_zpow] at h
  split at h
  · next hlt => rwa [← Option.some.inj h]
  · cases h

theorem round_neg (q : ℚ) : round (-q) = (round q).neg := by
  have hpos : ∀ {p : ℚ}, 0 < p → round (-p) = (round p).neg := by
    intro p hp
    rw [round_neg_of_pos hp, round_of_pos hp]
    cases roundMagnitude? p <;> rfl
  rcases lt_trichotomy q 0 with hq | rfl | hq
  · have hneg := hpos (neg_pos.2 hq)
    rw [neg_neg] at hneg
    rw [hneg]
    cases round (-q) <;> simp [neg]
  · simp [round, neg]
  · exact hpos hq

theorem round_neg_self (h : round q = finite q) : round (-q) = finite (-q) := by
  rw [round_neg, h, neg]

/-- What a number is rounded to is not changed by rounding. -/
theorem round_of_round (h : round q = finite v) : round v = finite v := by
  have hpositive : ∀ {p w : ℚ}, 0 < p → round p = finite w → round w = finite w := by
    intro p w hp hw
    rw [round_of_pos hp] at hw
    cases hmagnitude : roundMagnitude? p with
    | none => simp [hmagnitude] at hw
    | some m =>
      rw [hmagnitude] at hw
      obtain rfl := finite.inj hw
      have hlt := lt_of_roundMagnitude? hmagnitude
      obtain rfl := eq_magnitude_of_roundMagnitude? hmagnitude
      rcases (magnitude_nonneg p).eq_or_lt with hzero | hpos
      · rw [← hzero, round, if_pos rfl]
      · have hsame := magnitude_magnitude hp hpos
        rw [round_of_pos hpos, roundMagnitude?_of_lt (hsame.trans_lt hlt), hsame]
  rcases lt_trichotomy q 0 with hneg | rfl | hpos
  · have hround : round (-q) = finite (-v) := by rw [round_neg, h, neg]
    simpa using round_neg_self (hpositive (neg_pos.2 hneg) hround)
  · rw [round, if_pos rfl] at h
    rw [← finite.inj h, round, if_pos rfl]
  · exact hpositive hpos h

theorem round_of_div {a b : Binary64} (h : a.div b = finite q) : round q = finite q := by
  rcases a with a | s | _ <;> rcases b with b | t | _ <;> simp only [div] at h
  case finite.finite =>
    by_cases hb : b = 0
    · split_ifs at h
    · rw [if_neg hb] at h
      exact round_of_round h
  case finite.infinite =>
    rw [← finite.inj h, round, if_pos rfl]
  all_goals cases h

/-- A positive number of the format is a multiple of its unit. -/
theorem isMultiple_unit (hq : 0 < q) (h : round q = finite q) : IsMultiple (unitExponent q) q := by
  rcases round_eq_finite h with ⟨hzero, -⟩ | ⟨-, heq⟩ | ⟨hneg, -⟩
  · exact absurd hzero hq.ne'
  · exact ⟨significand q (unitExponent q), by simpa [magnitude] using heq⟩
  · exact absurd hq hneg.not_gt

/-- Numbers of the format that differ are a unit of the smaller one apart. -/
theorem add_unit_le (hq : 0 < q) (h : round q = finite q) (h' : round q' = finite q')
    (hlt : q < q') : q + 2 ^ unitExponent q ≤ q' := by
  have hmultiple : IsMultiple (unitExponent q) (q' - q) :=
    ((isMultiple_unit (hq.trans hlt) h').mono (unitExponent_mono hq hlt.le)).sub
      (isMultiple_unit hq h)
  have hle := hmultiple.le_abs (sub_ne_zero.2 hlt.ne')
  rw [abs_of_pos (sub_pos.2 hlt)] at hle
  linarith

/-- The unit of a number is no less than the last of its 53 places. -/
theorem mul_two_zpow_le_unit (hq : 0 < q) : q * 2 ^ (-53 : ℤ) ≤ 2 ^ unitExponent q := by
  have hle : binaryExponent q + 1 + -53 ≤ unitExponent q := by
    unfold unitExponent
    omega
  calc q * 2 ^ (-53 : ℤ) ≤ 2 ^ (binaryExponent q + 1) * 2 ^ (-53 : ℤ) :=
        mul_le_mul_of_nonneg_right (binaryExponent_spec hq).2.le (two_zpow_pos _).le
    _ ≤ 2 ^ unitExponent q := by
        rw [two_zpow_mul]
        exact two_zpow_le hle

end FilmReport.Binary64

namespace FilmReport.Binary64

variable {a b x : Binary64}

/-- Rounding does not change it. -/
def IsRounded (x : Binary64) : Prop :=
  ∀ q, x = finite q → round q = finite q

theorem isRounded_finite_zero : (finite 0).IsRounded := by
  intro q h
  rw [← finite.inj h, round, if_pos rfl]

theorem isRounded_add (a b : Binary64) : (add a b).IsRounded := by
  intro q h
  rcases a with p | s | _ <;> rcases b with p' | s' | _ <;> simp only [add] at h
  case finite.finite => exact round_of_round h
  case infinite.infinite => split at h <;> cases h
  all_goals cases h

theorem add_finite_zero (h : x.IsRounded) : add x (finite 0) = x := by
  cases x with
  | finite q => rw [add, add_zero, h q rfl]
  | infinite s => rfl
  | nan => rfl

theorem isFinite_of_add (h : (add a b).isFinite = true) : a.isFinite = true := by
  cases a with
  | finite q => rfl
  | nan => cases b <;> cases h
  | infinite s =>
    rcases b with q | t | _
    · cases h
    · rw [add] at h
      split at h <;> cases h
    · cases h

/-- A total outside the range is not moved back. -/
theorem add_of_isFinite (ha : a.isFinite ≠ true) (hb : b.isFinite = true) : add a b = a := by
  cases b with
  | finite q => cases a <;> first | rfl | exact absurd rfl ha
  | infinite s => cases hb
  | nan => cases hb

namespace RunningSum

variable {s t : RunningSum}

structure IsRounded (s : RunningSum) : Prop where
  total : s.total.IsRounded
  lost : s.lost.IsRounded

theorem isRounded_push (s : RunningSum) (x : Binary64) : (s.push x).IsRounded :=
  ⟨isRounded_add _ _, isRounded_add _ _⟩

/-- Sums with one total, which lost the same as long as it is in the range. -/
structure Same (s t : RunningSum) : Prop where
  total : s.total = t.total
  lost : s.total.isFinite = true → s.lost = t.lost

theorem Same.push (h : s.Same t) (x : Binary64) : (s.push x).Same (t.push x) where
  total := congrArg (add · x) h.total
  lost := by
    intro hfinite
    rw [RunningSum.push, RunningSum.push, h.total, h.lost (isFinite_of_add hfinite)]

theorem Same.value (h : s.Same t) : s.value = t.value := by
  have houtside : ∀ u : RunningSum, u.total.isFinite ≠ true → u.value = u.total := by
    intro u hu
    rw [RunningSum.value]
    split
    · next hlost => exact add_of_isFinite hu hlost
    · rfl
  by_cases hfinite : s.total.isFinite = true
  · rw [RunningSum.value, RunningSum.value, h.total, h.lost hfinite]
  · rw [houtside s hfinite, houtside t (h.total ▸ hfinite), h.total]

theorem push_zero (h : s.IsRounded) : (s.push (finite 0)).Same s where
  total := add_finite_zero h.total
  lost := by
    intro hfinite
    obtain ⟨q, hq⟩ : ∃ q, s.total = finite q := by
      rw [push, add_finite_zero h.total] at hfinite
      cases htotal : s.total with
      | finite q => exact ⟨q, rfl⟩
      | _ => rw [htotal] at hfinite; cases hfinite
    have hzero : round 0 = finite 0 := if_pos rfl
    have hself : sub (finite q) (finite q) = finite 0 := by
      rw [sub, neg, add, add_neg_cancel, hzero]
    have hback : add (sub (finite 0) (finite q)) (finite q) = finite 0 := by
      rw [sub, neg, add, zero_add, round_neg_self (h.total q hq), add, neg_add_cancel, hzero]
    have hkept : add (finite q) (finite 0) = finite q := hq ▸ add_finite_zero h.total
    have hlost : add s.lost (finite 0) = s.lost := add_finite_zero h.lost
    rw [push, hq]
    dsimp only
    rw [hkept, hself, hback]
    split
    · rw [add_finite_zero isRounded_finite_zero, hlost]
    · exact hlost

theorem same_foldl_push (xs : List Binary64) (h : s.Same t) (hs : s.IsRounded)
    (ht : t.IsRounded) :
    (xs.foldl push s).Same ((xs.filter fun x => x ≠ finite 0).foldl push t) := by
  induction xs generalizing s t with
  | nil => exact h
  | cons x rest ih =>
    rw [List.foldl_cons, List.filter_cons]
    by_cases hx : x = finite 0
    · subst hx
      have hzero := push_zero hs
      have hsame : (s.push (finite 0)).Same t :=
        ⟨hzero.total.trans h.total, fun hf => (hzero.lost hf).trans (h.lost (hzero.total ▸ hf))⟩
      simpa using ih hsame (isRounded_push s _) ht
    · rw [if_pos (decide_eq_true hx), List.foldl_cons]
      exact ih (h.push x) (isRounded_push s x) (isRounded_push t x)

/-- Zeros can be left out of a sum. -/
theorem value_foldl_push (xs : List Binary64) (hs : s.IsRounded) :
    (xs.foldl push s).value = ((xs.filter fun x => x ≠ finite 0).foldl push s).value :=
  (same_foldl_push xs ⟨rfl, fun _ => rfl⟩ hs hs).value

end RunningSum
end FilmReport.Binary64
