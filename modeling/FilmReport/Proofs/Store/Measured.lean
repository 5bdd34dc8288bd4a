import FilmReport.Store.Table
import FilmReport.Proofs.Binary64.Range

/-!
The sizes of numbers in the store. A dataset and its normalization give moderate integers, ratings
from 0 to 10 and amounts in hundredths.
-/

set_option autoImplicit false
set_option relaxedAutoImplicit false

namespace FilmReport

open Binary64

namespace Cell

/-- A cell of which sums are taken: missing, an integer or a real of bounded size. -/
def IsTerm (u : ℤ) : Cell → Prop
  | null => True
  | int n => n.natAbs ≤ 2 ^ 63
  | real x => x.Within u 64
  | text _ => False

/-- A cell that is missing or an integer of moderate size. -/
def IsWhole (c : Cell) : Prop :=
  c = null ∨ ∃ n : ℤ, c = int n ∧ n.natAbs ≤ 2 ^ 53

/-- A cell that is missing or a number of things. -/
def IsCount (c : Cell) : Prop :=
  c = null ∨ ∃ n : ℤ, c = int n ∧ 0 ≤ n ∧ n ≤ 2 ^ 53

/-- A cell that is missing or a rating. -/
def IsScore (c : Cell) : Prop :=
  c = null ∨ ∃ q, c = real (finite q) ∧ 0 ≤ q ∧ q ≤ 10

variable {u : ℤ} {c : Cell}

theorem IsWhole.isTerm (h : c.IsWhole) : c.IsTerm u := by
  rcases h with rfl | ⟨n, rfl, hn⟩
  · trivial
  · exact hn.trans (by decide)

theorem IsCount.isWhole (h : c.IsCount) : c.IsWhole := by
  rcases h with rfl | ⟨n, rfl, hn, hle⟩
  · exact Or.inl rfl
  · exact Or.inr ⟨n, rfl, by omega⟩

theorem IsScore.isTerm (h : c.IsScore) : c.IsTerm (-1074) := by
  rcases h with rfl | ⟨q, rfl, hq, hten⟩
  · trivial
  · refine ⟨q, rfl, Or.inl le_rfl, ?_⟩
    rw [abs_of_nonneg hq]
    exact hten.trans (by norm_num)

theorem IsTerm.within (h : c.IsTerm u) (hu : u ≤ 0) (hc : c ≠ null) : c.toReal.Within u 64 := by
  cases c with
  | null => exact absurd rfl hc
  | int n => exact RunningSum.within_of_natAbs hu (le_trans h (by decide))
  | real x => exact h
  | text s => exact h.elim

theorem IsWhole.isDivisor (h : c.IsWhole) (hc : c.toReal ≠ finite 0) : IsDivisor 0 c.toReal := by
  rcases h with rfl | ⟨n, rfl, -⟩
  · exact absurd rfl hc
  · exact isDivisor_ofInt hc

theorem toInteger_ofInt {n : ℤ} (h : n.natAbs < 2 ^ 53) :
    (real (.ofInt n)).toInteger = int n := by
  rw [ofInt_of_natAbs_lt h, toInteger, integral, Binary64.toInt?, Rat.den_intCast,
    if_pos rfl, Rat.num_intCast]
  exact if_pos (by omega)

end Cell

namespace Store

/-- A movie whose numbers keep the bounds of a dataset. -/
structure MovieRow.IsBounded (m : MovieRow) : Prop where
  year : m.year.IsWhole
  duration : m.duration.IsWhole

/-- A rating whose numbers keep the bounds of a dataset. -/
structure RatingRow.IsBounded (r : RatingRow) : Prop where
  average : r.avgRating.IsScore
  votes : r.totalVotes.IsCount
  median : r.medianRating.IsWhole

/-- A store whose numbers have the sizes that a dataset and its normalization give them. -/
structure IsMeasured (s : Store) : Prop where
  movie : ∀ m ∈ s.rowsOf .movie, m.IsBounded
  amount : ∀ m ∈ s.rowsOf .movie, m.grossAmount.IsTerm (-60)
  rating : ∀ r ∈ s.rowsOf .ratings, r.IsBounded

end Store
end FilmReport
