import Mathlib.Algebra.Order.Field.Power
import Mathlib.Algebra.Order.Ring.Rat
import Mathlib.Data.Rat.Cast.Defs
import Mathlib.Tactic.FieldSimp
import Mathlib.Tactic.Linarith
import Mathlib.Tactic.NormNum
import Mathlib.Tactic.Positivity
import Mathlib.Tactic.Ring
import FilmReport.Binary64.Basic

/-!
What rounding does to a number: how far it moves it, that it keeps multiples of a power of two, and
that it does not pass a power of two which the number hardly passes.
-/

set_option autoImplicit false
set_option relaxedAutoImplicit false

namespace FilmReport.Binary64

theorem twoPow_eq_zpow (k : ℤ) : twoPow k = 2 ^ k := by
  rw [twoPow]
  split
  · next hk =>
    obtain ⟨n, rfl⟩ := Int.eq_ofNat_of_zero_le hk
    simp
  · next hk =>
    obtain ⟨n, hn⟩ := Int.eq_ofNat_of_zero_le (show 0 ≤ -k by omega)
    obtain rfl : k = -(n : ℤ) := by omega
    simp [Rat.mkRat_eq_div]

theorem two_zpow_pos (k : ℤ) : (0 : ℚ) < 2 ^ k :=
  zpow_pos two_pos k

theorem two_zpow_le {i j : ℤ} (h : i ≤ j) : (2 : ℚ) ^ i ≤ 2 ^ j :=
  zpow_le_zpow_right₀ one_le_two h

theorem two_zpow_mul (i j : ℤ) : (2 : ℚ) ^ i * 2 ^ j = 2 ^ (i + j) :=
  (zpow_add₀ two_ne_zero i j).symm

theorem two_zpow_le_iff {i j : ℤ} : (2 : ℚ) ^ i ≤ 2 ^ j ↔ i ≤ j :=
  zpow_le_zpow_iff_right₀ one_lt_two

theorem two_zpow_lt_iff {i j : ℤ} : (2 : ℚ) ^ i < 2 ^ j ↔ i < j :=
  zpow_lt_zpow_iff_right₀ one_lt_two

theorem log2_spec {n : ℕ} (hn : n ≠ 0) :
    (2 : ℚ) ^ (n.log2 : ℤ) ≤ n ∧ (n : ℚ) < 2 ^ (n.log2 + 1 : ℤ) := by
  have hle := Nat.log2_self_le hn
  have hlt := Nat.lt_log2_self (n := n)
  constructor
  · rw [zpow_natCast]
    exact_mod_cast hle
  · rw [← Nat.cast_succ, zpow_natCast]
    exact_mod_cast hlt

theorem num_div_den_of_nonneg {q : ℚ} (hq : 0 ≤ q) : (q.num.natAbs : ℚ) / q.den = q := by
  have hnum : (q.num.natAbs : ℤ) = q.num := Int.natAbs_of_nonneg (Rat.num_nonneg.2 hq)
  conv_rhs => rw [← Rat.num_div_den q, ← hnum]
  simp

theorem binaryExponent_spec {q : ℚ} (hq : 0 < q) :
    2 ^ binaryExponent q ≤ q ∧ q < 2 ^ (binaryExponent q + 1) := by
  obtain ⟨hnum, hnum'⟩ := log2_spec (n := q.num.natAbs) (by simpa using hq.ne')
  obtain ⟨hden, hden'⟩ := log2_spec q.den_nz
  have hpos : (0 : ℚ) < q.den := by exact_mod_cast q.den_pos
  have hvalue : (q.num.natAbs : ℚ) = q * q.den :=
    (div_eq_iff hpos.ne').1 (num_div_den_of_nonneg hq.le)
  generalize hk : (q.num.natAbs.log2 : ℤ) - (q.den.log2 : ℤ) = k
  have hupper : q < 2 ^ (k + 1) := by
    have hprod : (2 : ℚ) ^ (k + 1) * 2 ^ (q.den.log2 : ℤ) = 2 ^ (q.num.natAbs.log2 + 1 : ℤ) := by
      rw [two_zpow_mul]
      congr 1
      omega
    by_contra hle
    have := mul_le_mul (not_lt.1 hle) hden (two_zpow_pos _).le hq.le
    linarith
  have hlower : 2 ^ (k - 1) < q := by
    have hprod : (2 : ℚ) ^ (k - 1) * 2 ^ (q.den.log2 + 1 : ℤ) = 2 ^ (q.num.natAbs.log2 : ℤ) := by
      rw [two_zpow_mul]
      congr 1
      omega
    by_contra hle
    have := mul_lt_mul' (not_lt.1 hle) hden' hpos.le (two_zpow_pos _)
    linarith
  rw [binaryExponent]
  simp only [hk, twoPow_eq_zpow]
  split
  · next h => exact ⟨h, hupper⟩
  · next h => exact ⟨hlower.le, by simpa using not_le.1 h⟩

theorem abs_nearest_sub_le {n d : ℕ} (hd : 0 < d) : |(nearest n d : ℚ) - n / d| ≤ 1 / 2 := by
  have hpos : (0 : ℚ) < d := by exact_mod_cast hd
  have hdivide : (n : ℚ) = d * (n / d : ℕ) + (n % d : ℕ) := by
    exact_mod_cast (Nat.div_add_mod n d).symm
  have hrest : n % d < d := Nat.mod_lt n hd
  rw [nearest]
  generalize n / d = q at *
  generalize n % d = r at *
  have hdown : 2 * r ≤ d → |(q : ℚ) - n / d| ≤ 1 / 2 := by
    intro h
    have hr : (2 : ℚ) * r ≤ d := by exact_mod_cast h
    rw [hdivide, abs_le]
    constructor <;> field_simp <;> linarith
  have hup : d ≤ 2 * r → |((q + 1 : ℕ) : ℚ) - n / d| ≤ 1 / 2 := by
    intro h
    have hr : (d : ℚ) ≤ 2 * r := by exact_mod_cast h
    have hr' : (r : ℚ) ≤ d := by exact_mod_cast hrest.le
    rw [hdivide, abs_le]
    push_cast
    constructor <;> field_simp <;> linarith
  split_ifs
  · exact hdown (by omega)
  · exact hup (by omega)
  · exact hdown (by omega)
  · exact hup (by omega)

theorem nearest_one (n : ℕ) : nearest n 1 = n := by
  simp [nearest, Nat.mod_one]

theorem significand_eq (q : ℚ) (u : ℤ) :
    significand q u = nearest (q / 2 ^ u).num.natAbs (q / 2 ^ u).den := by
  rw [significand, twoPow_eq_zpow]

theorem abs_significand_sub_le {q : ℚ} (hq : 0 ≤ q) (u : ℤ) :
    |(significand q u : ℚ) - q / 2 ^ u| ≤ 1 / 2 := by
  rw [significand_eq]
  generalize hs : q / 2 ^ u = s
  have hnonneg : 0 ≤ s := hs ▸ div_nonneg hq (two_zpow_pos u).le
  have hnear := abs_nearest_sub_le (n := s.num.natAbs) s.den_pos
  rwa [num_div_den_of_nonneg hnonneg] at hnear

/-- A whole multiple of a unit has itself as its significand. -/
theorem significand_of_eq {n : ℕ} {u : ℤ} {q : ℚ} (h : q = n * 2 ^ u) : significand q u = n := by
  have hs : q / 2 ^ u = n := by
    rw [h, mul_div_cancel_right₀ _ (two_zpow_pos u).ne']
  rw [significand_eq, hs]
  simp [nearest_one]

def IsMultiple (u : ℤ) (q : ℚ) : Prop :=
  ∃ n : ℤ, q = n * 2 ^ u

namespace IsMultiple

variable {u w : ℤ} {p q : ℚ}

theorem zero (u : ℤ) : IsMultiple u 0 :=
  ⟨0, by simp⟩

theorem neg (h : IsMultiple u q) : IsMultiple u (-q) := by
  obtain ⟨n, rfl⟩ := h
  exact ⟨-n, by push_cast; ring⟩

theorem add (hp : IsMultiple u p) (hq : IsMultiple u q) : IsMultiple u (p + q) := by
  obtain ⟨m, rfl⟩ := hp
  obtain ⟨n, rfl⟩ := hq
  exact ⟨m + n, by push_cast; ring⟩

theorem sub (hp : IsMultiple u p) (hq : IsMultiple u q) : IsMultiple u (p - q) := by
  rw [sub_eq_add_neg]
  exact hp.add hq.neg

theorem mono (h : IsMultiple w q) (hu : u ≤ w) : IsMultiple u q := by
  obtain ⟨n, rfl⟩ := h
  obtain ⟨k, hk⟩ := Int.eq_ofNat_of_zero_le (show 0 ≤ w - u by omega)
  refine ⟨n * 2 ^ k, ?_⟩
  obtain rfl : w = k + u := by omega
  rw [← two_zpow_mul, zpow_natCast]
  push_cast
  ring

theorem intCast (n : ℤ) (hu : u ≤ 0) : IsMultiple u (n : ℚ) :=
  mono (w := 0) ⟨n, by simp⟩ hu

theorem exists_nat (h : IsMultiple u q) (hq : 0 ≤ q) : ∃ n : ℕ, q = n * 2 ^ u := by
  obtain ⟨n, rfl⟩ := h
  have hn : (0 : ℚ) ≤ n := nonneg_of_mul_nonneg_left hq (two_zpow_pos u)
  obtain ⟨k, rfl⟩ := Int.eq_ofNat_of_zero_le (show 0 ≤ n by exact_mod_cast hn)
  exact ⟨k, by simp⟩

/-- A multiple of a unit that is not zero is no smaller than the unit. -/
theorem le_abs (h : IsMultiple u q) (hq : q ≠ 0) : 2 ^ u ≤ |q| := by
  obtain ⟨n, rfl⟩ := h
  have hn : n ≠ 0 := by
    rintro rfl
    simp at hq
  have hone : (1 : ℚ) ≤ |(n : ℚ)| := by exact_mod_cast Int.one_le_abs hn
  rw [abs_mul, abs_of_pos (two_zpow_pos u)]
  exact le_mul_of_one_le_left (two_zpow_pos u).le hone

end IsMultiple

/-- The magnitude to which a positive number is rounded, if it is within the range. -/
def magnitude (q : ℚ) : ℚ :=
  significand q (unitExponent q) * 2 ^ unitExponent q

section Magnitude

variable {q : ℚ} {u k : ℤ}

theorem roundMagnitude?_of_lt (h : magnitude q < 2 ^ (1024 : ℤ)) :
    roundMagnitude? q = some (magnitude q) := by
  rw [roundMagnitude?]
  simp only [twoPow_eq_zpow]
  exact if_pos h

theorem eq_magnitude_of_roundMagnitude? {v : ℚ} (h : roundMagnitude? q = some v) :
    v = magnitude q := by
  rw [roundMagnitude?] at h
  simp only [twoPow_eq_zpow] at h
  split at h
  · exact (Option.some.inj h).symm
  · cases h

theorem magnitude_nonneg (q : ℚ) : 0 ≤ magnitude q :=
  mul_nonneg (Nat.cast_nonneg _) (two_zpow_pos _).le

theorem abs_magnitude_sub_le (hq : 0 < q) :
    |magnitude q - q| ≤ q * 2 ^ (-53 : ℤ) + 2 ^ (-1075 : ℤ) := by
  have hunit : (2 : ℚ) ^ unitExponent q * (1 / 2) ≤ q * 2 ^ (-53 : ℤ) + 2 ^ (-1075 : ℤ) := by
    have hhalf : ∀ i : ℤ, (2 : ℚ) ^ i * (1 / 2) = 2 ^ (i - 1) := by
      intro i
      rw [zpow_sub_one₀ two_ne_zero]
      norm_num
    have hpos := mul_pos hq (two_zpow_pos (-53))
    have hpos' := two_zpow_pos (-1075)
    rw [hhalf, unitExponent]
    rcases max_cases (binaryExponent q - 52) (-1074) with ⟨h, -⟩ | ⟨h, -⟩ <;> rw [h]
    · have hle := mul_le_mul_of_nonneg_right (binaryExponent_spec hq).1 (two_zpow_pos (-53)).le
      rw [two_zpow_mul] at hle
      rw [show binaryExponent q - 52 - 1 = binaryExponent q + -53 by ring]
      linarith
    · norm_num1
      linarith
  have hdifference : magnitude q - q =
      (significand q (unitExponent q) - q / 2 ^ unitExponent q) * 2 ^ unitExponent q := by
    rw [magnitude, sub_mul, div_mul_cancel₀ _ (two_zpow_pos _).ne']
  have hnear := abs_significand_sub_le hq.le (unitExponent q)
  rw [hdifference, abs_mul, abs_of_pos (two_zpow_pos (unitExponent q))]
  have := mul_le_mul_of_nonneg_right hnear (two_zpow_pos (unitExponent q)).le
  linarith

/-- A multiple of a power of two is rounded to one, since its unit either divides it or is such a
multiple itself. -/
theorem isMultiple_magnitude (hq : 0 ≤ q) (h : IsMultiple u q) : IsMultiple u (magnitude q) := by
  rcases le_total u (unitExponent q) with hu | hu
  · exact IsMultiple.mono ⟨(significand q (unitExponent q) : ℕ), rfl⟩ hu
  · obtain ⟨n, hn⟩ := (h.mono hu).exists_nat hq
    rw [magnitude, significand_of_eq hn, ← hn]
    exact h

theorem isMultiple_magnitude_least (q : ℚ) : IsMultiple (-1074) (magnitude q) :=
  IsMultiple.mono ⟨(significand q (unitExponent q) : ℕ), rfl⟩ (le_max_right _ _)

theorem isMultiple_magnitude_of_le (hq : 0 < q) (h : 2 ^ (u + 52) ≤ q) :
    IsMultiple u (magnitude q) := by
  have hexponent : u + 52 < binaryExponent q + 1 :=
    two_zpow_lt_iff.1 (h.trans_lt (binaryExponent_spec hq).2)
  refine IsMultiple.mono ⟨(significand q (unitExponent q) : ℕ), rfl⟩ ?_
  rw [unitExponent]
  omega

/-- Numbers of 53 binary places are not changed. -/
theorem magnitude_eq_self (hq : 0 < q) (hu : -1074 ≤ u) (h : IsMultiple u q)
    (hlt : q < 2 ^ (u + 53)) : magnitude q = q := by
  have hexponent : binaryExponent q < u + 53 :=
    two_zpow_lt_iff.1 ((binaryExponent_spec hq).1.trans_lt hlt)
  obtain ⟨n, hn⟩ := (h.mono (u := unitExponent q) (by rw [unitExponent]; omega)).exists_nat hq.le
  rw [magnitude, significand_of_eq hn, ← hn]

/-- A number that passes a power of two by at most a quarter of a unit is not rounded beyond it. -/
theorem magnitude_le (hq : 0 < q) (hk : -1022 ≤ k) (h : q ≤ 2 ^ k + 2 ^ (k - 54)) :
    magnitude q ≤ 2 ^ k := by
  have hnear := abs_significand_sub_le hq.le (unitExponent q)
  have hwhole : ∀ n : ℕ, (n : ℤ) = k - unitExponent q → q / 2 ^ unitExponent q ≤ 2 ^ n + 1 / 4 →
      magnitude q ≤ 2 ^ k := by
    intro n hn hle
    have hlt : (significand q (unitExponent q) : ℚ) < (2 ^ n : ℕ) + 1 := by
      push_cast
      linarith [(abs_le.1 hnear).2]
    have hsignificand : significand q (unitExponent q) ≤ 2 ^ n := by
      exact_mod_cast Nat.lt_succ_iff.1 (by exact_mod_cast hlt)
    have hpower : (2 : ℚ) ^ k = (2 ^ n : ℕ) * 2 ^ unitExponent q := by
      push_cast
      rw [← zpow_natCast, two_zpow_mul, hn]
      congr 1
      ring
    rw [magnitude, hpower]
    gcongr
  by_cases hle : q ≤ 2 ^ k
  · have hexponent : binaryExponent q ≤ k :=
      two_zpow_le_iff.1 ((binaryExponent_spec hq).1.trans hle)
    have hunit : unitExponent q ≤ k := by rw [unitExponent]; omega
    obtain ⟨n, hn⟩ := Int.eq_ofNat_of_zero_le (show 0 ≤ k - unitExponent q by omega)
    refine hwhole n hn.symm ?_
    rw [div_le_iff₀ (two_zpow_pos _), add_mul, ← zpow_natCast, two_zpow_mul, ← hn]
    have := two_zpow_pos (unitExponent q)
    simp only [sub_add_cancel]
    linarith
  · have hupper : q < 2 ^ (k + 1) := by
      have hquarter : (2 : ℚ) ^ (k - 54) < 2 ^ k := two_zpow_lt_iff.2 (by omega)
      have hdouble : (2 : ℚ) ^ (k + 1) = 2 ^ k * 2 := zpow_add_one₀ two_ne_zero k
      linarith
    have hexponent : binaryExponent q = k := by
      obtain ⟨hlow, hhigh⟩ := binaryExponent_spec hq
      have := two_zpow_lt_iff.1 ((not_le.1 hle).trans hhigh)
      have := two_zpow_lt_iff.1 (hlow.trans_lt hupper)
      omega
    have hunit : unitExponent q = k - 52 := by rw [unitExponent]; omega
    refine hwhole 52 (by omega) ?_
    have hpower : (2 : ℚ) ^ k = 2 ^ 52 * 2 ^ (k - 52) := by
      rw [← zpow_natCast, two_zpow_mul]
      congr 1
      simp
    have hquarter : (2 : ℚ) ^ (k - 54) = 1 / 4 * 2 ^ (k - 52) := by
      rw [show (1 : ℚ) / 4 = 2 ^ (-2 : ℤ) by norm_num, two_zpow_mul]
      congr 1
      ring
    rw [hunit, div_le_iff₀ (two_zpow_pos _), add_mul, ← hpower, ← hquarter]
    exact h

end Magnitude

theorem round_of_pos {q : ℚ} (hq : 0 < q) :
    round q = match roundMagnitude? q with
      | some v => finite v
      | none => infinite false :=
  (if_neg hq.ne').trans (if_neg hq.not_gt)

theorem round_neg_of_pos {q : ℚ} (hq : 0 < q) :
    round (-q) = match roundMagnitude? q with
      | some v => finite (-v)
      | none => infinite true := by
  have hround : round (-q) = match roundMagnitude? (- -q) with
      | some v => finite (-v)
      | none => infinite true :=
    (if_neg (neg_ne_zero.2 hq.ne')).trans (if_pos (neg_neg_of_pos hq))
  rw [hround, neg_neg]

theorem round_eq_finite {q v : ℚ} (h : round q = finite v) :
    q = 0 ∧ v = 0 ∨ 0 < q ∧ v = magnitude q ∨ q < 0 ∧ v = -magnitude (-q) := by
  rcases lt_trichotomy q 0 with hq | rfl | hq
  · rw [← neg_neg q, round_neg_of_pos (neg_pos.2 hq)] at h
    cases hv : roundMagnitude? (-q) with
    | none => simp [hv] at h
    | some w =>
      rw [hv] at h
      rw [← finite.inj h, eq_magnitude_of_roundMagnitude? hv]
      exact Or.inr (Or.inr ⟨hq, rfl⟩)
  · rw [round, if_pos rfl] at h
    exact Or.inl ⟨rfl, (finite.inj h).symm⟩
  · rw [round_of_pos hq] at h
    cases hv : roundMagnitude? q with
    | none => simp [hv] at h
    | some w =>
      rw [hv] at h
      rw [← finite.inj h, eq_magnitude_of_roundMagnitude? hv]
      exact Or.inr (Or.inl ⟨hq, rfl⟩)

/-- All finite numbers of the format are multiples of its least positive one. -/
theorem isMultiple_of_round {q v : ℚ} (h : round q = finite v) : IsMultiple (-1074) v := by
  obtain ⟨-, rfl⟩ | ⟨-, rfl⟩ | ⟨-, rfl⟩ := round_eq_finite h
  · exact IsMultiple.zero _
  · exact isMultiple_magnitude_least q
  · exact (isMultiple_magnitude_least (-q)).neg

theorem IsMultiple.of_round {u : ℤ} {q v : ℚ} (hq : IsMultiple u q) (h : round q = finite v) :
    IsMultiple u v := by
  obtain ⟨-, rfl⟩ | ⟨hpos, rfl⟩ | ⟨hneg, rfl⟩ := round_eq_finite h
  · exact IsMultiple.zero u
  · exact isMultiple_magnitude hpos.le hq
  · exact (isMultiple_magnitude (neg_nonneg.2 hneg.le) hq.neg).neg

/-- A positive number is rounded to a number or beyond all of them. -/
theorem round_pos_cases {q : ℚ} (hq : 0 < q) :
    round q = finite (magnitude q) ∨ round q = infinite false := by
  rw [round_of_pos hq]
  cases hv : roundMagnitude? q with
  | none => exact Or.inr rfl
  | some w =>
    rw [eq_magnitude_of_roundMagnitude? hv]
    exact Or.inl rfl

theorem round_nonneg_cases {q : ℚ} (hq : 0 ≤ q) :
    (∃ v, round q = finite v ∧ 0 ≤ v) ∨ round q = infinite false := by
  rcases hq.eq_or_lt with rfl | hpos
  · exact Or.inl ⟨0, by rw [round, if_pos rfl], le_rfl⟩
  · exact (round_pos_cases hpos).imp_left fun h => ⟨_, h, magnitude_nonneg q⟩

/-- What is known of the finite number `v` to which `q` is rounded. -/
structure RoundsTo (q v : ℚ) : Prop where
  round : round q = finite v
  error : |v - q| ≤ |q| * 2 ^ (-53 : ℤ) + 2 ^ (-1075 : ℤ)
  bounded : ∀ {k : ℤ}, -1022 ≤ k → |q| ≤ 2 ^ k + 2 ^ (k - 54) → |v| ≤ 2 ^ k
  exact : ∀ {u : ℤ}, -1074 ≤ u → IsMultiple u q → |q| < 2 ^ (u + 53) → v = q

namespace RoundsTo

variable {q v : ℚ} {k u : ℤ}

theorem multiple (h : RoundsTo q v) : IsMultiple (-1074) v :=
  isMultiple_of_round h.round

theorem keeps (h : RoundsTo q v) (hq : IsMultiple u q) : IsMultiple u v :=
  hq.of_round h.round

theorem zero : RoundsTo 0 0 where
  round := by rw [Binary64.round, if_pos rfl]
  error := by simp
  bounded := fun _ _ => by simpa using (two_zpow_pos _).le
  exact := fun _ _ _ => rfl

theorem of_pos (hq : 0 < q) (h : q ≤ 2 ^ (1023 : ℤ)) : RoundsTo q (magnitude q) where
  round := by
    have hle : magnitude q ≤ 2 ^ (1023 : ℤ) :=
      magnitude_le hq (by norm_num) (h.trans (le_add_of_nonneg_right (two_zpow_pos _).le))
    rw [round_of_pos hq, roundMagnitude?_of_lt (hle.trans_lt (two_zpow_lt_iff.2 (by norm_num)))]
  error := by
    rw [abs_of_pos hq]
    exact abs_magnitude_sub_le hq
  bounded := by
    intro k hk hle
    rw [abs_of_pos hq] at hle
    rw [abs_of_nonneg (magnitude_nonneg q)]
    exact magnitude_le hq hk hle
  exact := by
    intro u hu hmultiple hlt
    rw [abs_of_pos hq] at hlt
    exact magnitude_eq_self hq hu hmultiple hlt

theorem neg (hq : 0 < q) (h : RoundsTo q v) : RoundsTo (-q) (-v) where
  round := by
    have hround := h.round
    rw [round_of_pos hq] at hround
    rw [round_neg_of_pos hq]
    cases hv : roundMagnitude? q with
    | none => simp [hv] at hround
    | some w =>
      rw [hv] at hround
      rw [finite.inj hround]
  error := by
    rw [← neg_sub', abs_neg, abs_neg]
    exact h.error
  bounded hk hle := by
    rw [abs_neg] at hle ⊢
    exact h.bounded hk hle
  exact hu hmultiple hlt := by
    rw [abs_neg] at hlt
    rw [h.exact hu (by simpa using hmultiple.neg) hlt]

theorem abs_le (h : RoundsTo q v) (hk : -1022 ≤ k) (hq : |q| ≤ 2 ^ k) : |v| ≤ 2 ^ k :=
  h.bounded hk (hq.trans (le_add_of_nonneg_right (two_zpow_pos _).le))

end RoundsTo

theorem exists_roundsTo {q : ℚ} (h : |q| ≤ 2 ^ (1023 : ℤ)) : ∃ v, RoundsTo q v := by
  rcases lt_trichotomy q 0 with hq | rfl | hq
  · rw [abs_of_neg hq] at h
    have hneg := (RoundsTo.of_pos (neg_pos.2 hq) h).neg (neg_pos.2 hq)
    rw [neg_neg] at hneg
    exact ⟨_, hneg⟩
  · exact ⟨0, RoundsTo.zero⟩
  · rw [abs_of_pos hq] at h
    exact ⟨_, RoundsTo.of_pos hq h⟩

end FilmReport.Binary64
