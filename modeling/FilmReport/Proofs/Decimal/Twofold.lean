import Mathlib.Data.Rat.Floor
import FilmReport.Decimal.Twofold
import FilmReport.Proofs.Binary64.Rounding

/-!
The product of numbers in two parts. Each operation on the way adds an error of a few units of a
scale; the first part of the product is off by little of its size, and the second part is what the
last rounding of the first part misses.
-/

set_option autoImplicit false
set_option relaxedAutoImplicit false

namespace FilmReport

namespace Binary64

theorem sub_finite (a b : ℚ) : (finite a).sub (finite b) = round (a - b) := by
  rw [sub_eq_add_neg]
  rfl

/-- A finite number no further than `e` from a given one. -/
def Near (e : ℚ) (x : Binary64) (X : ℚ) : Prop :=
  ∃ v, x = finite v ∧ |v - X| ≤ e

section Errors

variable {δ m n X Y z : ℚ} {x y : Binary64}

theorem near_round (hδ : 2 ^ (-1075 : ℤ) ≤ δ) (hδ' : δ ≤ 2 ^ (960 : ℤ)) (hn : n ≤ 2 ^ 53)
    (hz : |z - X| ≤ n * δ) (hX : |X| ≤ 2 ^ 53 * δ) : Near ((n + 3) * δ) (round z) X := by
  have hpos : 0 < δ := (two_zpow_pos _).trans_le hδ
  have hsize : |z| ≤ 2 ^ 54 * δ := by
    have hsum : |z| ≤ |z - X| + |X| := by simpa using abs_add_le (z - X) X
    have hscaled : n * δ ≤ 2 ^ 53 * δ := mul_le_mul_of_nonneg_right hn hpos.le
    linarith
  have hrange : |z| ≤ 2 ^ (1023 : ℤ) := by
    have hpower : (2 : ℚ) ^ 54 * 2 ^ (960 : ℤ) ≤ 2 ^ (1023 : ℤ) := by
      rw [← zpow_natCast, two_zpow_mul]
      exact two_zpow_le (by norm_num)
    exact (hsize.trans (mul_le_mul_of_nonneg_left hδ' (by norm_num))).trans hpower
  obtain ⟨v, hv⟩ := exists_roundsTo hrange
  refine ⟨v, hv.round, ?_⟩
  have hpart : |z| * 2 ^ (-53 : ℤ) ≤ 2 * δ := by
    have := mul_le_mul_of_nonneg_right hsize (two_zpow_pos (-53)).le
    have hpower : (2 : ℚ) ^ 54 * δ * 2 ^ (-53 : ℤ) = 2 * δ := by
      norm_num
      ring
    linarith
  have herror := hv.error
  have htriangle : |v - X| ≤ |v - z| + |z - X| := abs_sub_le v z X
  linarith

theorem Near.add (hδ : 2 ^ (-1075 : ℤ) ≤ δ) (hδ' : δ ≤ 2 ^ (960 : ℤ)) (hx : Near (m * δ) x X)
    (hy : Near (n * δ) y Y) (hmn : m + n ≤ 2 ^ 53) (hXY : |X + Y| ≤ 2 ^ 53 * δ) :
    Near ((m + n + 3) * δ) (x.add y) (X + Y) := by
  obtain ⟨v, rfl, hv⟩ := hx
  obtain ⟨w, rfl, hw⟩ := hy
  refine near_round hδ hδ' hmn ?_ hXY
  have htriangle := abs_add_le (v - X) (w - Y)
  rw [show v + w - (X + Y) = (v - X) + (w - Y) by ring]
  linarith

theorem Near.sub (hδ : 2 ^ (-1075 : ℤ) ≤ δ) (hδ' : δ ≤ 2 ^ (960 : ℤ)) (hx : Near (m * δ) x X)
    (hy : Near (n * δ) y Y) (hmn : m + n ≤ 2 ^ 53) (hXY : |X - Y| ≤ 2 ^ 53 * δ) :
    Near ((m + n + 3) * δ) (x.sub y) (X - Y) := by
  have hneg : Near (n * δ) y.neg (-Y) := by
    obtain ⟨w, rfl, hw⟩ := hy
    refine ⟨-w, rfl, ?_⟩
    rwa [← neg_sub', abs_neg]
  rw [sub_eq_add_neg] at hXY ⊢
  exact hx.add hδ hδ' hneg hmn hXY

theorem near_mul (hδ : 2 ^ (-1075 : ℤ) ≤ δ) (hδ' : δ ≤ 2 ^ (960 : ℤ)) {a b : ℚ}
    (hab : |a * b| ≤ 2 ^ 53 * δ) : Near (3 * δ) ((finite a).mul (finite b)) (a * b) := by
  have := near_round (n := 0) hδ hδ' (by norm_num) (by simp : |a * b - a * b| ≤ 0 * δ) hab
  simpa [mul] using this

theorem near_self (a : ℚ) (δ : ℚ) : Near (0 * δ) (finite a) a :=
  ⟨a, rfl, by simp⟩

theorem Near.mono {e e' : ℚ} (h : Near e x X) (he : e ≤ e') : Near e' x X := by
  obtain ⟨v, hx, hv⟩ := h
  exact ⟨v, hx, hv.trans he⟩

end Errors

/-- A positive number is cut in two: its coarse half, and what rounding leaves of the rest. -/
structure Cut (a h t : ℚ) : Prop where
  coarse_eq : coarse (finite a) = finite h
  sub_eq : (finite a).sub (finite h) = finite t
  nonneg : 0 ≤ h
  le : h ≤ a
  error : |h + t - a| ≤ 2 ^ (-50 : ℤ) * a

/-- The rest of a number is rounded with an error that is little beside the number: a large number
loses little of its size, and the rest of a small one is a number of the format. -/
theorem RoundsTo.abs_sub_le_of_rest {a r t : ℚ} (ht : RoundsTo r t) (ha : 0 < a) (hr : 0 ≤ r)
    (hle : r ≤ a) (hlt : r < 2 ^ (unitExponent a + 26)) (hmultiple : IsMultiple (-1074) r) :
    |t - r| ≤ 2 ^ (-50 : ℤ) * a := by
  rcases le_or_gt (2 ^ (-1000 : ℤ)) a with hlarge | hsmall
  · refine ht.error.trans ?_
    have hrelative : |r| * 2 ^ (-53 : ℤ) ≤ 2 ^ (-53 : ℤ) * a := by
      rw [abs_of_nonneg hr, mul_comm]
      exact mul_le_mul_of_nonneg_left hle (two_zpow_pos _).le
    have habsolute : (2 : ℚ) ^ (-1075 : ℤ) ≤ 2 ^ (-75 : ℤ) * a := by
      rw [show (-1075 : ℤ) = -75 + -1000 by norm_num, ← two_zpow_mul]
      exact mul_le_mul_of_nonneg_left hlarge (two_zpow_pos _).le
    have hsum : (2 : ℚ) ^ (-53 : ℤ) * a + 2 ^ (-75 : ℤ) * a ≤ 2 ^ (-50 : ℤ) * a := by
      rw [← add_mul]
      refine mul_le_mul_of_nonneg_right ?_ ha.le
      norm_num
    exact (add_le_add hrelative habsolute).trans hsum
  · have hexponent : binaryExponent a < -1000 :=
      two_zpow_lt_iff.1 ((binaryExponent_spec ha).1.trans_lt hsmall)
    have hplaces : unitExponent a + 26 ≤ -1074 + 53 := by rw [unitExponent]; omega
    have hexact := ht.exact le_rfl hmultiple (by
      rw [abs_of_nonneg hr]
      exact hlt.trans_le (two_zpow_le hplaces))
    rw [hexact, sub_self, abs_zero]
    exact mul_nonneg (two_zpow_pos _).le ha.le

theorem exists_cut {a : ℚ} (ha : 0 < a) (ha' : a ≤ 2 ^ (1000 : ℤ))
    (hmultiple : IsMultiple (-1074) a) : ∃ h t, Cut a h t := by
  let unit : ℚ := 2 ^ (unitExponent a + 26)
  have hunit : 0 < unit := two_zpow_pos _
  let h : ℚ := ⌊a / unit⌋ * unit
  have hle : h ≤ a := by
    have := mul_le_mul_of_nonneg_right (Int.floor_le (a / unit)) hunit.le
    rwa [div_mul_cancel₀ _ hunit.ne'] at this
  have hlt : a - h < unit := by
    have := mul_lt_mul_of_pos_right (Int.lt_floor_add_one (a / unit)) hunit
    rw [div_mul_cancel₀ _ hunit.ne', add_mul, one_mul] at this
    exact sub_lt_iff_lt_add'.2 this
  have hnonneg : 0 ≤ h := by
    have : 0 ≤ ⌊a / unit⌋ := Int.floor_nonneg.2 (div_nonneg ha.le hunit.le)
    exact mul_nonneg (by exact_mod_cast this) hunit.le
  have hcoarse : coarse (finite a) = finite h := by
    rw [coarse, if_neg ha.ne', if_neg ha.not_gt, coarseMagnitude]
    simp only [twoPow_eq_zpow]
    rfl
  have hrest : 0 ≤ a - h := sub_nonneg.2 hle
  have hrange : |a - h| ≤ 2 ^ (1023 : ℤ) := by
    rw [abs_of_nonneg hrest]
    exact ((sub_le_self a hnonneg).trans ha').trans (two_zpow_le (by norm_num))
  obtain ⟨t, ht⟩ := exists_roundsTo hrange
  have hsub : (finite a).sub (finite h) = finite t := (sub_finite a h).trans ht.round
  have hgrid : IsMultiple (-1074) (a - h) := by
    refine hmultiple.sub (IsMultiple.mono ⟨_, rfl⟩ ?_)
    rw [unitExponent]
    omega
  have herror := ht.abs_sub_le_of_rest ha hrest (sub_le_self a hnonneg) hlt hgrid
  refine ⟨h, t, hcoarse, hsub, hnonneg, hle, ?_⟩
  rwa [show h + t - a = t - (a - h) by ring]

theorem abs_mul_le_mul {a b A B : ℚ} (ha : |a| ≤ A) (hb : |b| ≤ B) : |a * b| ≤ A * B := by
  rw [abs_mul]
  exact mul_le_mul ha hb (abs_nonneg b) ((abs_nonneg a).trans ha)

namespace Cut

variable {a h t c k s : ℚ}

theorem abs_le (hx : Cut a h t) : |h| ≤ a :=
  (abs_of_nonneg hx.nonneg).trans_le hx.le

theorem abs_rest_le (hx : Cut a h t) : |t| ≤ 2 * a := by
  have hpos : 0 ≤ a := hx.nonneg.trans hx.le
  have hrest : |a - h| ≤ a := by
    rw [abs_of_nonneg (sub_nonneg.2 hx.le)]
    exact sub_le_self a hx.nonneg
  have hsum := abs_add_le (h + t - a) (a - h)
  rw [sub_add_sub_cancel, add_sub_cancel_left] at hsum
  have hsmall : (2 : ℚ) ^ (-50 : ℤ) * a ≤ 1 * a := by
    refine mul_le_mul_of_nonneg_right ?_ hpos
    norm_num
  linarith [hx.error]

/-- The four products of the halves of two numbers add up to their product, but for little. -/
theorem abs_products_sub_le (hx : Cut a h t) (hy : Cut c k s) :
    |h * k + (h * s + t * k) + t * s - a * c| ≤ 3 * (2 ^ (-50 : ℤ) * (a * c)) := by
  have ha : |a| ≤ a := (abs_of_nonneg (hx.nonneg.trans hx.le)).le
  have hc : |c| ≤ c := (abs_of_nonneg (hy.nonneg.trans hy.le)).le
  have hleft := abs_mul_le_mul hx.error hc
  have hright := abs_mul_le_mul ha hy.error
  have hboth := abs_mul_le_mul hx.error hy.error
  rw [mul_assoc] at hleft
  rw [mul_left_comm] at hright
  rw [mul_mul_mul_comm, mul_assoc] at hboth
  have hpos : 0 ≤ (2 : ℚ) ^ (-50 : ℤ) * (a * c) := (abs_nonneg _).trans hleft
  have hsmall : (2 : ℚ) ^ (-50 : ℤ) * (2 ^ (-50 : ℤ) * (a * c)) ≤
      1 * (2 ^ (-50 : ℤ) * (a * c)) := by
    refine mul_le_mul_of_nonneg_right ?_ hpos
    norm_num
  have htriangle := abs_add_le ((h + t - a) * c) (a * (k + s - c))
  have htriangle' := abs_add_le ((h + t - a) * c + a * (k + s - c)) ((h + t - a) * (k + s - c))
  rw [show h * k + (h * s + t * k) + t * s - a * c = (h + t - a) * c + a * (k + s - c) +
    (h + t - a) * (k + s - c) by ring]
  linarith

end Cut

/-- A scale in which the size of a number of middling size is `2 ^ 50`. -/
theorem exists_scale {x : ℚ} (hlow : 2 ^ (-1000 : ℤ) ≤ x) (hhigh : x ≤ 2 ^ (1000 : ℤ)) :
    ∃ δ, x = 2 ^ 50 * δ ∧ 2 ^ (-1075 : ℤ) ≤ δ ∧ δ ≤ 2 ^ (960 : ℤ) := by
  have hscale : x = 2 ^ 50 * (2 ^ (-50 : ℤ) * x) := by
    norm_num
    ring
  refine ⟨2 ^ (-50 : ℤ) * x, hscale, ?_, ?_⟩
  · have hpower : (2 : ℚ) ^ (-1075 : ℤ) ≤ 2 ^ (-50 : ℤ) * 2 ^ (-1000 : ℤ) := by
      rw [two_zpow_mul]
      exact two_zpow_le (by norm_num)
    exact hpower.trans (mul_le_mul_of_nonneg_left hlow (two_zpow_pos _).le)
  · have hpower : (2 : ℚ) ^ (-50 : ℤ) * 2 ^ (1000 : ℤ) ≤ 2 ^ (960 : ℤ) := by
      rw [two_zpow_mul]
      exact two_zpow_le (by norm_num)
    exact (mul_le_mul_of_nonneg_left hhigh (two_zpow_pos _).le).trans hpower

end Binary64

namespace Twofold

open Binary64

/-- The sum of two numbers, and what its rounding misses. -/
theorem exists_two_sum {δ a b : ℚ} (hδ : 2 ^ (-1075 : ℤ) ≤ δ) (hδ' : δ ≤ 2 ^ (960 : ℤ))
    (hab : |a + b| ≤ 2 ^ 53 * δ) (hb : |b| ≤ 2 ^ 53 * δ) :
    ∃ h k, (finite a).add (finite b) = finite h ∧
      ((finite a).sub (finite h)).add (finite b) = finite k ∧ |h - (a + b)| ≤ 3 * δ ∧
      |k| ≤ 9 * δ ∧ IsMultiple (-1074) h := by
  have hpos : 0 < δ := (two_zpow_pos _).trans_le hδ
  obtain ⟨h, hh, herror⟩ := near_round (n := 0) (z := a + b) hδ hδ' (by norm_num) (by simp) hab
  have hnear : Near ((0 + 3) * δ) (finite h) (a + b) := ⟨h, rfl, herror⟩
  have hlow : Near (6 * δ) ((finite a).sub (finite h)) (-b) := by
    have hsub := (near_self a δ).sub hδ hδ' hnear (by norm_num) (by
      rwa [sub_add_cancel_left, abs_neg])
    rw [sub_add_cancel_left] at hsub
    exact hsub.mono (by linarith)
  have hzero := hlow.add hδ hδ' (near_self b δ) (by norm_num) (by
    rw [neg_add_cancel, abs_zero]
    positivity)
  rw [neg_add_cancel] at hzero
  obtain ⟨k, hk, hkerror⟩ := hzero
  rw [sub_zero] at hkerror
  exact ⟨h, k, hh, hk, by linarith, by linarith, isMultiple_of_round hh⟩

/-- A product whose four exact parts and two cross parts are small in units of a scale. -/
theorem exists_sum_of_parts {δ p q r s u w : ℚ} {P Q R S U W : Binary64}
    (hδ : 2 ^ (-1075 : ℤ) ≤ δ) (hδ' : δ ≤ 2 ^ (960 : ℤ)) (hP : Near (3 * δ) P p)
    (hQ : Near (3 * δ) Q q) (hR : Near (3 * δ) R r) (hS : Near (3 * δ) S s) (hU : Near (3 * δ) U u)
    (hW : Near (3 * δ) W w) (hp : |p| ≤ 2 ^ 50 * δ) (hq : |q| ≤ 2 ^ 51 * δ) (hr : |r| ≤ 2 ^ 51 * δ)
    (hs : |s| ≤ 2 ^ 52 * δ) (hu : |u| ≤ 2 ^ 10 * δ) (hw : |w| ≤ 2 ^ 10 * δ)
    (hsum : |p + (q + r) + s| ≤ 2 ^ 51 * δ) :
    ∃ h k, (P.add (Q.add R)).add ((U.add W).add (((P.sub (P.add (Q.add R))).add (Q.add R)).add S)) =
        finite h ∧
      ((P.add (Q.add R)).sub (finite h)).add
        ((U.add W).add (((P.sub (P.add (Q.add R))).add (Q.add R)).add S)) = finite k ∧
      |h - (p + (q + r) + s)| ≤ 2 ^ 12 * δ ∧ |k| ≤ 9 * δ ∧ IsMultiple (-1074) h := by
  have hpos : 0 < δ := (two_zpow_pos _).trans_le hδ
  have hqr : |q + r| ≤ 2 ^ 52 * δ := (abs_add_le q r).trans (by linarith)
  have hmiddle := hQ.add hδ hδ' hR (by norm_num) (by linarith)
  have hfirst := hP.add hδ hδ' hmiddle (by norm_num) ((abs_add_le p _).trans (by linarith))
  have hcross := hU.add hδ hδ' hW (by norm_num) ((abs_add_le u w).trans (by linarith))
  have hlost : Near (33 * δ) ((P.sub (P.add (Q.add R))).add (Q.add R)) 0 := by
    have hback := hP.sub hδ hδ' hfirst (by norm_num) (by
      rw [sub_add_cancel_left, abs_neg]
      linarith)
    rw [sub_add_cancel_left] at hback
    have hzero := hback.add hδ hδ' hmiddle (by norm_num) (by
      rw [neg_add_cancel, abs_zero]
      positivity)
    rw [neg_add_cancel] at hzero
    exact hzero.mono (by linarith)
  have htail := hlost.add hδ hδ' hS (by norm_num) (by rw [zero_add]; linarith)
  rw [zero_add] at htail
  have hrest := hcross.add hδ hδ' htail (by norm_num)
    ((abs_add_le _ _).trans (by linarith [abs_add_le u w]))
  obtain ⟨a, ha, hfirst⟩ := hfirst
  obtain ⟨b, hb, hrest⟩ := hrest
  rw [hb, ha]
  have htotal : |a + b - (p + (q + r) + s)| ≤ 2 ^ 11 * δ + 100 * δ := by
    have htriangle := abs_add_le (a - (p + (q + r))) (b - (u + w + s) + (u + w))
    have htriangle' := abs_add_le (b - (u + w + s)) (u + w)
    have htriangle'' := abs_add_le u w
    rw [show a + b - (p + (q + r) + s) =
      (a - (p + (q + r))) + (b - (u + w + s) + (u + w)) by ring]
    linarith
  have hsize : |a + b| ≤ 2 ^ 53 * δ := by
    have htriangle := abs_add_le (a + b - (p + (q + r) + s)) (p + (q + r) + s)
    rw [sub_add_cancel] at htriangle
    linarith
  have hbsize : |b| ≤ 2 ^ 53 * δ := by
    have htriangle := abs_add_le (b - (u + w + s)) (u + w + s)
    have htriangle' := abs_add_le (u + w) s
    have htriangle'' := abs_add_le u w
    rw [sub_add_cancel] at htriangle
    linarith
  obtain ⟨h, k, hh, hk, herror, hksize, hmultiple⟩ := exists_two_sum hδ hδ' hsize hbsize
  refine ⟨h, k, hh, hk, ?_, hksize, hmultiple⟩
  have htriangle := abs_add_le (h - (a + b)) (a + b - (p + (q + r) + s))
  rw [sub_add_sub_cancel] at htriangle
  linarith

theorem exists_times {a l c m : ℚ} (ha : 0 < a) (ha' : a ≤ 2 ^ (1000 : ℤ))
    (hamultiple : IsMultiple (-1074) a) (hl : |l| ≤ 2 ^ (-40 : ℤ) * a) (hc : 0 < c)
    (hc' : c ≤ 2 ^ (1000 : ℤ)) (hcmultiple : IsMultiple (-1074) c) (hm : |m| ≤ 2 ^ (-40 : ℤ) * c)
    (hlow : 2 ^ (-1000 : ℤ) ≤ a * c) (hhigh : a * c ≤ 2 ^ (1000 : ℤ)) :
    ∃ h k, times ⟨finite a, finite l⟩ ⟨finite c, finite m⟩ = ⟨finite h, finite k⟩ ∧
      |h - a * c| ≤ 1 / 2 * (a * c) ∧ |k| ≤ 2 ^ (-40 : ℤ) * h ∧ IsMultiple (-1074) h := by
  obtain ⟨h₁, t₁, hx⟩ := exists_cut ha ha' hamultiple
  obtain ⟨h₂, t₂, hy⟩ := exists_cut hc hc' hcmultiple
  obtain ⟨δ, hscale, hδ, hδ'⟩ := exists_scale hlow hhigh
  have hpos : 0 < δ := (two_zpow_pos _).trans_le hδ
  have hhh : |h₁ * h₂| ≤ 2 ^ 50 * δ := by
    rw [← hscale]
    exact abs_mul_le_mul hx.abs_le hy.abs_le
  have hht : |h₁ * t₂| ≤ 2 * (2 ^ 50 * δ) := by
    rw [← hscale, mul_left_comm]
    exact abs_mul_le_mul hx.abs_le hy.abs_rest_le
  have hth : |t₁ * h₂| ≤ 2 * (2 ^ 50 * δ) := by
    rw [← hscale, ← mul_assoc]
    exact abs_mul_le_mul hx.abs_rest_le hy.abs_le
  have htt : |t₁ * t₂| ≤ 4 * (2 ^ 50 * δ) := by
    have := abs_mul_le_mul hx.abs_rest_le hy.abs_rest_le
    rwa [mul_mul_mul_comm, hscale, show (2 : ℚ) * 2 = 4 by norm_num] at this
  have ham : |a * m| ≤ 2 ^ 10 * δ := by
    have := abs_mul_le_mul (abs_of_pos ha).le hm
    rw [mul_left_comm, hscale] at this
    norm_num at this ⊢
    linarith
  have hlc : |l * c| ≤ 2 ^ 10 * δ := by
    have := abs_mul_le_mul hl (abs_of_pos hc).le
    rw [mul_assoc, hscale] at this
    norm_num at this ⊢
    linarith
  have hproduct : |h₁ * h₂ + (h₁ * t₂ + t₁ * h₂) + t₁ * t₂ - a * c| ≤ 3 * δ := by
    have hδ₁ : 2 ^ (-50 : ℤ) * (a * c) = δ := by
      rw [hscale]
      norm_num
      ring
    rw [← hδ₁]
    exact hx.abs_products_sub_le hy
  have hsize : |h₁ * h₂ + (h₁ * t₂ + t₁ * h₂) + t₁ * t₂| ≤ 2 ^ 51 * δ := by
    have htriangle := abs_add_le (h₁ * h₂ + (h₁ * t₂ + t₁ * h₂) + t₁ * t₂ - a * c) (a * c)
    rw [sub_add_cancel, abs_of_pos (mul_pos ha hc), hscale] at htriangle
    rw [hscale] at hproduct
    linarith
  obtain ⟨h, k, hh, hk, herror, hlow, hmultiple⟩ := exists_sum_of_parts hδ hδ'
    (near_mul hδ hδ' (by linarith)) (near_mul hδ hδ' (by linarith)) (near_mul hδ hδ' (by linarith))
    (near_mul hδ hδ' (by linarith)) (near_mul hδ hδ' (by linarith)) (near_mul hδ hδ' (by linarith))
    hhh (by linarith) (by linarith) (by linarith) ham hlc hsize
  have hnear : |h - a * c| ≤ 1 / 2 * (a * c) := by
    have hsmall : 2 ^ 12 * δ + 3 * δ ≤ 1 / 2 * (a * c) := by
      rw [hscale]
      linarith only [hpos]
    exact (abs_sub_le h _ (a * c)).trans ((add_le_add herror hproduct).trans hsmall)
  refine ⟨h, k, ?_, hnear, ?_, hmultiple⟩
  · rw [times]
    simp only [hx.coarse_eq, hx.sub_eq, hy.coarse_eq, hy.sub_eq, hh, hk]
  · have hhalf := (abs_le.1 hnear).1
    rw [hscale] at hhalf
    have hle : 2 ^ (-40 : ℤ) * (2 ^ 49 * δ) ≤ 2 ^ (-40 : ℤ) * h :=
      mul_le_mul_of_nonneg_left (by linarith) (two_zpow_pos _).le
    have hpower : (2 : ℚ) ^ (-40 : ℤ) * (2 ^ 49 * δ) = 512 * δ := by
      norm_num
      ring
    linarith

/-- A number in two parts from `2 ^ i` to `2 ^ j`, the second part small beside the first. -/
def Spans (i j : ℤ) (x : Twofold) : Prop :=
  ∃ a l, x = ⟨finite a, finite l⟩ ∧ 2 ^ i ≤ a ∧ a ≤ 2 ^ j ∧ |l| ≤ 2 ^ (-40 : ℤ) * a ∧
    IsMultiple (-1074) a

theorem Spans.mono {i j i' j' : ℤ} {x : Twofold} (h : x.Spans i j) (hi : i' ≤ i) (hj : j ≤ j') :
    x.Spans i' j' := by
  obtain ⟨a, l, rfl, hlow, hhigh, hrest⟩ := h
  exact ⟨a, l, rfl, (two_zpow_le hi).trans hlow, hhigh.trans (two_zpow_le hj), hrest⟩

theorem Spans.times {i j e f : ℤ} {x y : Twofold} (hx : x.Spans i j) (hy : y.Spans e f)
    (hlow : -1000 ≤ i + e) (hhigh : j + f ≤ 1000) (hj : j ≤ 1000) (hf : f ≤ 1000) :
    (x.times y).Spans (i + e - 1) (j + f + 1) := by
  obtain ⟨a, l, rfl, hai, haj, hl, hamultiple⟩ := hx
  obtain ⟨c, m, rfl, hce, hcf, hm, hcmultiple⟩ := hy
  have ha := (two_zpow_pos i).trans_le hai
  have hc := (two_zpow_pos e).trans_le hce
  have hproduct : 2 ^ (i + e) ≤ a * c := by
    rw [← two_zpow_mul]
    exact mul_le_mul hai hce (two_zpow_pos e).le ha.le
  have hproduct' : a * c ≤ 2 ^ (j + f) := by
    rw [← two_zpow_mul]
    exact mul_le_mul haj hcf hc.le (two_zpow_pos j).le
  obtain ⟨h, k, hhk, hnear, hk, hmultiple⟩ := exists_times ha (haj.trans (two_zpow_le hj))
    hamultiple hl hc (hcf.trans (two_zpow_le hf)) hcmultiple hm
    ((two_zpow_le hlow).trans hproduct) (hproduct'.trans (two_zpow_le hhigh))
  obtain ⟨hdown, hup⟩ := abs_le.1 hnear
  refine ⟨h, k, hhk, ?_, ?_, hk, hmultiple⟩
  · rw [zpow_sub_one₀ two_ne_zero]
    linarith
  · rw [zpow_add_one₀ two_ne_zero]
    linarith

/-- Repeated multiplication by one factor. -/
theorem Spans.repeat {i j e f : ℤ} {x y : Twofold} (hy : y.Spans e f) {n : ℕ} (hx : x.Spans i j)
    (hlow : ∀ k : ℕ, k < n → -1000 ≤ i + k * (e - 1) + e)
    (hhigh : ∀ k : ℕ, k < n → j + k * (f + 1) + f ≤ 1000 ∧ j + k * (f + 1) ≤ 1000)
    (hf : f ≤ 1000) : (Nat.repeat (·.times y) n x).Spans (i + n * (e - 1)) (j + n * (f + 1)) := by
  induction n with
  | zero => simpa [Nat.repeat] using hx
  | succ n ih =>
    have hbefore := ih (fun k hk => hlow k (by omega)) fun k hk => hhigh k (by omega)
    have hlast := hhigh n (Nat.lt_succ_self n)
    refine (hbefore.times hy (hlow n (Nat.lt_succ_self n)) hlast.1 hlast.2 hf).mono ?_ ?_
    · push_cast
      linarith
    · push_cast
      linarith

end Twofold

theorem Binary64.ofScaled_eq {n e : ℤ} (he : -400 ≤ e) (he' : e ≤ 400) :
    ofScaled n e = round (n * tenPow e) := by
  rw [ofScaled, Decimal.toBinary64]
  by_cases hn : n = 0
  · subst hn
    simp [round]
  · have hsmall : ¬ e + ((n.natAbs.log2 / 3 + 1 : ℕ) : ℤ) < -400 := by omega
    have hvalue : (Decimal.mk (decide (n < 0)) n.natAbs e).toRat = n * tenPow e := by
      rw [Decimal.toRat, Decimal.magnitude]
      rcases lt_or_ge n 0 with h | h
      · have habs : (n.natAbs : ℚ) = -n := by
          rw [Nat.cast_natAbs, abs_of_neg h]
          simp
        simp [h, habs]
      · have habs : (n.natAbs : ℚ) = n := by
          rw [Nat.cast_natAbs, abs_of_nonneg h]
        simp [h.not_gt, habs]
    rw [if_neg (by simpa using hn), if_neg he'.not_gt, if_neg hsmall, hvalue]

namespace Twofold

open Binary64

/-- Factors given by numerals have the sizes of the numerals. -/
theorem spans_ofScaled {n e m f i j : ℤ} (he : -400 ≤ e) (he' : e ≤ 400) (hf : -400 ≤ f)
    (hf' : f ≤ 400) (hi : -900 ≤ i) (hj : j ≤ 1000) (hlow : twoPow (i + 1) ≤ n * tenPow e)
    (hhigh : n * tenPow e ≤ twoPow j) (hm : |m * tenPow f| ≤ twoPow (i - 40)) :
    Spans i j ⟨ofScaled n e, ofScaled m f⟩ := by
  rw [twoPow_eq_zpow] at hlow hhigh hm
  rw [ofScaled_eq he he', ofScaled_eq hf hf']
  generalize (n : ℚ) * tenPow e = q at *
  generalize (m : ℚ) * tenPow f = p at *
  have hq : 0 < q := (two_zpow_pos _).trans_le hlow
  have hij : i < j := by
    have := two_zpow_le_iff.1 (hlow.trans hhigh)
    omega
  have hqabs : |q| ≤ 2 ^ j := by rwa [abs_of_pos hq]
  obtain ⟨a, ha⟩ := exists_roundsTo (hqabs.trans (two_zpow_le (by omega)))
  obtain ⟨l, hl⟩ := exists_roundsTo (hm.trans (two_zpow_le (by omega)))
  have hai : 2 ^ i ≤ a := by
    have herror := ha.error
    rw [abs_of_pos hq] at herror
    have hrelative : q * 2 ^ (-53 : ℤ) ≤ 1 / 4 * q := by
      rw [mul_comm]
      refine mul_le_mul_of_nonneg_right ?_ hq.le
      norm_num
    have habsolute : (2 : ℚ) ^ (-1075 : ℤ) ≤ 1 / 4 * q := by
      have hpower : (2 : ℚ) ^ (-1075 : ℤ) ≤ 2 ^ (-2 : ℤ) * 2 ^ (i + 1) := by
        rw [two_zpow_mul]
        exact two_zpow_le (by omega)
      rw [show (1 : ℚ) / 4 = 2 ^ (-2 : ℤ) by norm_num]
      exact hpower.trans (mul_le_mul_of_nonneg_left hlow (two_zpow_pos _).le)
    have hhalf : 1 / 4 * q + 1 / 4 * q = 1 / 2 * q := by ring
    have hdown := (abs_le.1 (herror.trans ((add_le_add hrelative habsolute).trans_eq hhalf))).1
    rw [zpow_add_one₀ two_ne_zero] at hlow
    linarith only [hdown, hlow]
  have haj : a ≤ 2 ^ j := (le_abs_self a).trans (ha.abs_le (by omega) hqabs)
  refine ⟨a, l, by rw [ha.round, hl.round], hai, haj, ?_, ha.multiple⟩
  refine (hl.abs_le (by omega) hm).trans ?_
  rw [show i - 40 = -40 + i by ring, ← two_zpow_mul]
  exact mul_le_mul_of_nonneg_left hai (two_zpow_pos _).le

theorem spans_ten : ten.Spans 2 4 :=
  spans_ofScaled (m := 0) (f := 0) (by decide) (by decide) (by decide) (by decide) (by decide)
    (by decide) (by decide +kernel) (by decide +kernel) (by decide +kernel)

theorem spans_ten10 : ten10.Spans 32 34 :=
  spans_ofScaled (m := 0) (f := 0) (by decide) (by decide) (by decide) (by decide) (by decide)
    (by decide) (by decide +kernel) (by decide +kernel) (by decide +kernel)

theorem spans_ten100 : ten100.Spans 331 333 :=
  spans_ofScaled (by decide) (by decide) (by decide) (by decide) (by decide) (by decide)
    (by decide +kernel) (by decide +kernel) (by decide +kernel)

theorem spans_tenth : tenth.Spans (-5) (-3) :=
  spans_ofScaled (by decide) (by decide) (by decide) (by decide) (by decide) (by decide)
    (by decide +kernel) (by decide +kernel) (by decide +kernel)

theorem spans_tenth10 : tenth10.Spans (-35) (-33) :=
  spans_ofScaled (by decide) (by decide) (by decide) (by decide) (by decide) (by decide)
    (by decide +kernel) (by decide +kernel) (by decide +kernel)

end Twofold
end FilmReport
