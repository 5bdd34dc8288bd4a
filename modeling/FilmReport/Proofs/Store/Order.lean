import Mathlib.Algebra.Order.Ring.Rat
import Mathlib.Data.List.Lex
import Mathlib.Data.Prod.Lex
import Mathlib.Data.String.Basic
import Mathlib.Data.Sum.Order
import Mathlib.Order.Compare
import FilmReport.Store.Order

/-!
The order of cells as a linear order of their ranks, and rows brought into an order. Which row
stands where does not depend on the order in which the rows came, as far as the keys tell rows
apart.
-/

set_option autoImplicit false
set_option relaxedAutoImplicit false

namespace FilmReport

theorem Text.compareBytes_eq_cmp (s t : String) : compareBytes s t = cmp s t := by
  rw [compareBytes]
  rcases lt_trichotomy s t with h | rfl | h
  · rw [if_pos h, h.cmp_eq_lt]
  · rw [if_neg (lt_irrefl s), if_pos rfl, cmp_self_eq_eq]
  · rw [if_neg h.not_gt, if_neg h.ne', h.cmp_eq_gt]

/-- Where a cell stands among all cells: its kind, its number and its text. -/
abbrev Rank := ℕ ×ₗ ℚ ×ₗ String

namespace Cell

def rank : Cell → Rank
  | null => toLex (0, toLex (0, ""))
  | real (.infinite true) => toLex (1, toLex (0, ""))
  | int n => toLex (2, toLex (n, ""))
  | real (.finite q) => toLex (2, toLex (q, ""))
  | real (.infinite false) => toLex (3, toLex (0, ""))
  | text s => toLex (4, toLex (0, s))
  | real .nan => toLex (5, toLex (0, ""))

theorem compare_eq_cmp {a b : Cell} (ha : a ≠ real .nan) (hb : b ≠ real .nan) :
    compare a b = cmp a.rank b.rank := by
  unfold cmp cmpUsing
  rcases a with _ | n | (q | (_ | _) | _) | s <;> rcases b with _ | m | (r | (_ | _) | _) | t <;>
    simp_all [compare, rank, number?, Binary64.lt, Prod.Lex.toLex_lt_toLex, -String.lt_iff_ltb]
  -- What is left are two texts.
  exact Text.compareBytes_eq_cmp s t

theorem rank_text_inj {s t : String} : (text s).rank = (text t).rank ↔ s = t := by
  simp [rank]

end Cell

namespace Store

/-- Where a key stands among the keys of its kind. -/
def SortKey.rank : SortKey → Rank ⊕ₗ Rankᵒᵈ
  | up c => toLex (.inl c.rank)
  | down c => toLex (.inr (OrderDual.toDual c.rank))

def SortKey.cell : SortKey → Cell
  | up c => c
  | down c => c

theorem SortKey.compare_eq_cmp {a b : SortKey} (ha : a.cell ≠ .real .nan)
    (hb : b.cell ≠ .real .nan) : a.compare b = cmp a.rank b.rank := by
  cases a with
  | up a =>
    cases b with
    | up b =>
      have hcells : a.compare b = cmp a.rank b.rank := Cell.compare_eq_cmp ha hb
      unfold cmp cmpUsing at hcells ⊢
      simp [SortKey.compare, hcells, rank]
    | down b =>
      unfold cmp cmpUsing
      simp [SortKey.compare, rank]
  | down a =>
    cases b with
    | up b =>
      unfold cmp cmpUsing
      simp [SortKey.compare, rank]
    | down b =>
      have hcells : b.compare a = cmp b.rank a.rank := Cell.compare_eq_cmp hb ha
      unfold cmp cmpUsing at hcells ⊢
      simp [SortKey.compare, hcells, rank]

theorem compareKeys_eq_gt : ∀ {a b : List SortKey}, (∀ k ∈ a, k.cell ≠ .real .nan) →
    (∀ k ∈ b, k.cell ≠ .real .nan) →
      (compareKeys a b = .gt ↔ b.map SortKey.rank < a.map SortKey.rank)
  | [], [], _, _ => by simp [compareKeys]
  | [], b :: bs, _, _ => by simp [compareKeys]
  | a :: as, [], _, _ => by simp [compareKeys]
  | a :: as, b :: bs, ha, hb => by
    rw [List.forall_mem_cons] at ha hb
    have ih := compareKeys_eq_gt ha.2 hb.2
    rw [compareKeys, SortKey.compare_eq_cmp ha.1 hb.1, List.map_cons, List.map_cons,
      List.cons_lt_cons_iff]
    rcases lt_trichotomy a.rank b.rank with h | h | h
    · rw [h.cmp_eq_lt]
      simp [h.not_gt, h.ne']
    · rw [h, cmp_self_eq_eq]
      simp [ih]
    · rw [h.cmp_eq_gt]
      simp [h]

variable {ρ φ : Type} {keys : ρ → List SortKey} {rows rows' : List ρ}

/-- The rank of a row by its keys. -/
def rankBy (keys : ρ → List SortKey) (row : ρ) : List (Rank ⊕ₗ Rankᵒᵈ) :=
  (keys row).map SortKey.rank

/-- Rows in order have ascending ranks. -/
theorem pairwise_orderBy (hnan : ∀ row ∈ rows, ∀ k ∈ keys row, k.cell ≠ .real .nan) :
    (orderBy keys rows).Pairwise fun a b => rankBy keys a ≤ rankBy keys b := by
  have hmap : (orderBy keys rows).map (rankBy keys) =
      (rows.map (rankBy keys)).mergeSort fun a b => decide (a ≤ b) := by
    refine List.map_mergeSort fun a ha b hb => ?_
    rw [Bool.eq_iff_iff, decide_eq_true_iff, bne_iff_ne, Ne,
      compareKeys_eq_gt (hnan a ha) (hnan b hb), not_lt]
    rfl
  have hsorted := @List.pairwise_mergeSort _ (fun a b => decide (a ≤ b))
    (fun a b c hab hbc => decide_eq_true ((of_decide_eq_true hab).trans (of_decide_eq_true hbc)))
    (fun a b => by simpa using le_total a b) (rows.map (rankBy keys))
  rw [← hmap, List.pairwise_map] at hsorted
  exact hsorted.imp fun h => of_decide_eq_true h

end Store
end FilmReport
