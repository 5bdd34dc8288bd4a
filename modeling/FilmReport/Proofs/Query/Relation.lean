import Mathlib.Algebra.GroupWithZero.Nat
import Mathlib.Algebra.Order.BigOperators.Group.List
import Mathlib.Data.List.Perm.Subperm
import Mathlib.Data.List.Nodup
import FilmReport.Query.Joined
import FilmReport.Proofs.Store.Order

/-!
What the operations on rows answer for rows that come in another order: the same pairs, the same
groups, the same counts, and a greatest cell of the same rank. A sum of numbers that are rounded may
depend on the order; `Settled` says of a column that it has no such sum.
-/

set_option autoImplicit false
set_option relaxedAutoImplicit false

namespace FilmReport

namespace Cell

/-- A cell as a table keeps it: an integer within range or a number of the format. -/
def IsKept : Cell → Prop
  | int n => isStorable n = true
  | real (.finite q) => Binary64.round q = .finite q
  | real .nan => False
  | _ => True

instance : DecidablePred IsKept
  | null => .isTrue trivial
  | int n => inferInstanceAs (Decidable (isStorable n = true))
  | real (.finite q) => inferInstanceAs (Decidable (Binary64.round q = .finite q))
  | real (.infinite _) => .isTrue trivial
  | real .nan => .isFalse id
  | text _ => .isTrue trivial

@[simp]
theorem isKept_null : null.IsKept := trivial

@[simp]
theorem isKept_text (s : String) : (text s).IsKept := trivial

theorem IsKept.ne_nan {c : Cell} (h : c.IsKept) : c ≠ real .nan := by
  rintro rfl
  exact h

theorem isNull_eq_decide (c : Cell) : c.isNull = decide (c.rank = null.rank) := by
  rcases c with _ | n | (q | (_ | _) | _) | t <;> simp [rank, isNull]

theorem rank_eq_null_iff {c : Cell} : c.rank = null.rank ↔ c = null := by
  rw [← decide_eq_true_iff (p := c.rank = null.rank), ← isNull_eq_decide]
  cases c <;> simp [isNull]

theorem same_eq_decide {a b : Cell} (ha : a ≠ real .nan) (hb : b ≠ real .nan) :
    a.same b = decide (a.rank ≠ null.rank ∧ a.rank = b.rank) := by
  have hequal : (compare a b == .eq) = decide (a.rank = b.rank) := by
    rw [compare_eq_cmp ha hb, Bool.eq_iff_iff, beq_iff_eq, cmp_eq_eq_iff, decide_eq_true_eq]
  rw [same, hequal, isNull_eq_decide, isNull_eq_decide, Bool.eq_iff_iff]
  simp only [Bool.and_eq_true, Bool.not_eq_true', decide_eq_false_iff_not, decide_eq_true_eq]
  constructor
  · rintro ⟨⟨hnull, _⟩, heq⟩
    exact ⟨hnull, heq⟩
  · rintro ⟨hnull, heq⟩
    exact ⟨⟨hnull, heq ▸ hnull⟩, heq⟩

theorem same_self_iff {c : Cell} (hc : c ≠ real .nan) : c.same c = true ↔ c ≠ null := by
  rw [same_eq_decide hc hc, decide_eq_true_iff, Ne, rank_eq_null_iff]
  exact and_iff_left rfl

theorem same_text_iff {s t : String} : (text s).same (text t) = true ↔ s = t := by
  rw [same_eq_decide (by simp) (by simp), decide_eq_true_iff, rank_text_inj]
  simp [rank]

theorem same_congr {a b c : Cell} (ha : a ≠ real .nan) (hb : b ≠ real .nan) (hc : c ≠ real .nan)
    (h : b.rank = c.rank) : a.same b = a.same c := by
  rw [same_eq_decide ha hb, same_eq_decide ha hc, h]

theorem rank_eq_of_same {a b : Cell} (ha : a ≠ real .nan) (hb : b ≠ real .nan)
    (h : a.same b = true) : a.rank = b.rank := by
  rw [same_eq_decide ha hb] at h
  exact (of_decide_eq_true h).2

theorem ofText?_eq_of_rank {t u : Option String} (h : (ofText? t).rank = (ofText? u).rank) :
    t = u := by
  cases t <;> cases u <;> simp_all [ofText?, rank]

theorem null_rank_le (c : Cell) : null.rank ≤ c.rank := by
  rcases c with _ | n | (q | (_ | _) | _) | t <;> simp [rank, Prod.Lex.toLex_le_toLex]

theorem above_eq_decide {a b : Cell} (ha : a ≠ real .nan) (hb : b ≠ real .nan) :
    a.above b = decide (b.rank ≠ null.rank ∧ b.rank < a.rank) := by
  have hgreater : (compare a b == .gt) = decide (b.rank < a.rank) := by
    rw [compare_eq_cmp ha hb, Bool.eq_iff_iff, beq_iff_eq, cmp_eq_gt_iff, decide_eq_true_eq]
  rw [above, hgreater, isNull_eq_decide, isNull_eq_decide, Bool.eq_iff_iff]
  simp only [Bool.and_eq_true, Bool.not_eq_true', decide_eq_false_iff_not, decide_eq_true_eq]
  constructor
  · rintro ⟨⟨_, hnull⟩, hlt⟩
    exact ⟨hnull, hlt⟩
  · rintro ⟨hnull, hlt⟩
    exact ⟨⟨((null_rank_le b).trans_lt hlt).ne', hnull⟩, hlt⟩

theorem above_eq_false_iff {a b : Cell} (ha : a ≠ real .nan) (hb : b ≠ real .nan) :
    a.above b = false ↔ b = null ∨ a.rank ≤ b.rank := by
  rw [above_eq_decide ha hb, decide_eq_false_iff_not, not_and_or, Ne, not_not, rank_eq_null_iff,
    not_lt]

theorem rank_normal (c : Cell) : c.normal.rank = c.rank := by
  rcases c with _ | n | (q | s | _) | t
  case real.finite =>
    by_cases hden : q.den = 1
    · have hq : (q.num : ℚ) = q := Rat.coe_int_num_of_den_eq_one hden
      by_cases hstorable : isStorable q.num = true
      · simp [normal, Binary64.toInt?, hden, hstorable, rank, hq]
      · simp [normal, Binary64.toInt?, hden, hstorable]
    · simp [normal, Binary64.toInt?, hden]
  all_goals rfl

theorem normal_ne_nan {c : Cell} (h : c ≠ real .nan) : c.normal ≠ real .nan := by
  intro hnan
  have hrank := rank_normal c
  rw [hnan] at hrank
  rcases c with _ | m | (q | (_ | _) | _) | s <;> simp_all [rank]

end Cell

namespace Query

variable {α β ρ τ : Type}

theorem join_perm {left left' : List α} {right right' : List β} (hleft : left.Perm left')
    (hright : right.Perm right') (on : α → β → Bool) :
    (join left right on).Perm (join left' right' on) :=
  hleft.flatMap fun a _ => (hright.filter (on a)).map fun b => (a, b)

/-- What is made of some of the rows does not depend on their order. -/
def Unordered (total : List ρ → τ) (rows : List ρ) : Prop :=
  ∀ part part' : List ρ, part.Sublist rows → part'.Perm part → total part' = total part

theorem Unordered.map {total : List ρ → τ} {rows : List ρ} (h : Unordered total rows) (f : τ → α) :
    Unordered (fun part => f (total part)) rows :=
  fun part part' hpart hperm => congrArg f (h part part' hpart hperm)

theorem Unordered.append {total other : List ρ → List τ} {rows : List ρ}
    (h : Unordered total rows) (hother : Unordered other rows) :
    Unordered (fun part => total part ++ other part) rows := by
  intro part part' hpart hperm
  dsimp only
  rw [h part part' hpart hperm, hother part part' hpart hperm]

theorem present_perm {cells cells' : List Cell} (h : cells'.Perm cells) :
    (present cells').Perm (present cells) :=
  h.filter _

/-- The sum of some cells of a column that hold something does not depend on their order. -/
def Settled (column : List Cell) : Prop :=
  ∀ cells cells' : List Cell, cells.Subperm (present column) → cells'.Perm cells →
    (Tally.ofCells cells').cell = (Tally.ofCells cells).cell ∧
      (Tally.ofCells cells').value = (Tally.ofCells cells).value

section Totals

variable {value : ρ → Cell} {rows : List ρ}

theorem Settled.present {column cells cells' : List Cell} (h : Settled column)
    (hcells : cells.Subperm column) (hperm : cells'.Perm cells) :
    (Tally.ofCells (present cells')).cell = (Tally.ofCells (present cells)).cell ∧
      (Tally.ofCells (present cells')).value = (Tally.ofCells (present cells)).value :=
  h _ _ (hcells.filter _) (present_perm hperm)

/-- What is kept of two cells on the way to the greatest. -/
def better (best c : Cell) : Cell :=
  if best.isNull || Cell.above c best then c else best

theorem rank_better {best c : Cell} (hbest : best ≠ .real .nan) (hc : c ≠ .real .nan) :
    better best c ≠ .real .nan ∧ (better best c).rank = max best.rank c.rank := by
  by_cases hnull : best.rank = Cell.null.rank
  · have hleft : better best c = c := by simp [better, Cell.isNull_eq_decide, hnull]
    rw [hleft, hnull, max_eq_right (Cell.null_rank_le c)]
    exact ⟨hc, rfl⟩
  · by_cases hlt : best.rank < c.rank
    · have hleft : better best c = c := by
        simp [better, Cell.above_eq_decide hc hbest, hnull, hlt]
      rw [hleft, max_eq_right hlt.le]
      exact ⟨hc, rfl⟩
    · have hright : better best c = best := by
        simp [better, Cell.isNull_eq_decide, Cell.above_eq_decide hc hbest, hnull, hlt]
      rw [hright, max_eq_left (not_lt.1 hlt)]
      exact ⟨hbest, rfl⟩

theorem rank_foldl_better {cells : List Cell} (h : ∀ c ∈ cells, c ≠ .real .nan) :
    ∀ {best : Cell}, best ≠ .real .nan → cells.foldl better best ≠ .real .nan ∧
      (cells.foldl better best).rank = (cells.map Cell.rank).foldl max best.rank := by
  induction cells with
  | nil => exact fun hbest => ⟨hbest, rfl⟩
  | cons c rest ih =>
    intro best hbest
    rw [List.forall_mem_cons] at h
    obtain ⟨hne, hrank⟩ := rank_better hbest h.1
    rw [List.foldl_cons, List.map_cons, List.foldl_cons, ← hrank]
    exact ih h.2 hne

/-- The greatest cell has the highest rank. -/
theorem rank_greatest {cells : List Cell} (h : ∀ c ∈ cells, c ≠ .real .nan) :
    greatest cells ≠ .real .nan ∧
      (greatest cells).rank = ((present cells).map Cell.rank).foldl max Cell.null.rank :=
  rank_foldl_better (fun c hc => h c (List.mem_of_mem_filter hc)) (by simp)

end Totals

end Query
end FilmReport
