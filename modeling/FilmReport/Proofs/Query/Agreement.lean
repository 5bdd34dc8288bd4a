import FilmReport.Proofs.Query.Execution
import FilmReport.Proofs.Query.Sorted

/-!
Statements that answer alike on two stores with the same rows. What is compared is what a report
prints, so that a real and the integer that it is count as one.
-/

set_option autoImplicit false
set_option relaxedAutoImplicit false

namespace FilmReport

namespace Store

/-- All cells of a store are such as its tables keep. -/
def IsKept (s : Store) : Prop :=
  ∀ table, ∀ row ∈ s.rowsOf table, ∀ column ∈ (layout table).columns, (column.get row).IsKept

namespace IsKept

variable {s : Store}

theorem movie (h : s.IsKept) {m : MovieRow} (hm : m ∈ s.rowsOf .movie) :
    m.year.IsKept ∧ m.duration.IsKept ∧ m.grossAmount.IsKept := by
  have hcolumns := h .movie m hm
  simp only [layout, movieLayout, List.forall_mem_cons] at hcolumns
  exact ⟨hcolumns.2.2.1, hcolumns.2.2.2.2.1, hcolumns.2.2.2.2.2.2.2.2.2.1⟩

theorem rating (h : s.IsKept) {r : RatingRow} (hr : r ∈ s.rowsOf .ratings) :
    r.avgRating.IsKept ∧ r.totalVotes.IsKept ∧ r.medianRating.IsKept := by
  have hcolumns := h .ratings r hr
  simp only [layout, ratingLayout, List.forall_mem_cons] at hcolumns
  exact ⟨hcolumns.2.1, hcolumns.2.2.1, hcolumns.2.2.2.1⟩

end IsKept
end Store

namespace Query

open Store

/-- What a report prints for a cell. -/
def shown (c : Cell) : Shape.Checked Value :=
  (Datum.cell c).check

variable {order : List By} {rows rows' : List (List Cell)}

section Best

variable {σ ρ : Type} {items items' : List ρ}

/-- The amounts of a group. -/
def amountsOf (group : ρ → String) (amount : ρ → Cell) (items : List ρ) (k : String) : List Cell :=
  (items.filter fun item => group item = k).map amount

/-- Each group with its greatest amount. -/
def bests (group : ρ → String) (amount : ρ → Cell) (items : List ρ) : List (List Cell) :=
  grouped (fun item => [.text (group item)]) (fun part => [greatest (part.map amount)]) items

variable {group : ρ → String} {amount : ρ → Cell}

theorem mem_bests {row : List Cell} :
    row ∈ bests group amount items ↔ ∃ item ∈ items,
      row = [.text (group item), greatest (amountsOf group amount items (group item))] := by
  have hkey : ∀ item, withKey (normalKey fun item => [.text (group item)])
      (normalKey (fun item => [.text (group item)]) item) items =
        items.filter fun other => group other = group item := by
    intro item
    simp [withKey, normalKey, Cell.normal]
  rw [bests, mem_grouped]
  simp only [hkey, amountsOf]
  rfl

/-- A value is among the greatest if it is the greatest of its group. -/
theorem isAmong_bests {k : String} {v : Cell} :
    isAmong [.text k, v] (bests group amount items) = true ↔
      (∃ item ∈ items, group item = k) ∧
        v.same (greatest (amountsOf group amount items k)) = true := by
  have htext : ∀ t : String, (Cell.text k).same (.text t) = true ↔ k = t := by
    intro t
    rw [Cell.same_eq_decide (by simp) (by simp), decide_eq_true_iff, Cell.rank_text_inj]
    simp [Cell.rank]
  rw [isAmong, List.any_eq_true]
  constructor
  · rintro ⟨row, hrow, hall⟩
    obtain ⟨item, hitem, rfl⟩ := mem_bests.1 hrow
    simp only [List.zip_cons_cons, List.zip_nil_right, List.all_cons, List.all_nil, Bool.and_true,
      Bool.and_eq_true, htext] at hall
    obtain ⟨rfl, hsame⟩ := hall
    exact ⟨⟨item, hitem, rfl⟩, hsame⟩
  · rintro ⟨⟨item, hitem, rfl⟩, hsame⟩
    refine ⟨_, mem_bests.2 ⟨item, hitem, rfl⟩, ?_⟩
    simp [htext, hsame]

variable {candidates candidates' : List σ}

end Best

section Agreement

variable {s s' : Store} {lines columns : List String} {prepare : Store → Except StoreError Unit}
  {bound : List Param} {answer : Params → Store → List (List Cell)}

end Agreement

theorem ofNumber_ne_nan (x : Binary64) : ofNumber x ≠ .real .nan := by
  cases x <;> simp [ofNumber]

theorem rounded_ne_nan (places : Nat) (c : Cell) : rounded places c ≠ .real .nan := by
  cases c with
  | null => simp [rounded]
  | int n => exact ofNumber_ne_nan _
  | real x => exact ofNumber_ne_nan _
  | text t => exact ofNumber_ne_nan _

/-- A rounded cell holds no integer, so that cells of one rank are the same. -/
theorem rounded_eq_of_rank {places : Nat} {a b : Cell}
    (h : (rounded places a).rank = (rounded places b).rank) :
    rounded places a = rounded places b := by
  have hform : ∀ c, (∀ n, rounded places c ≠ .int n) := by
    intro c n
    have hnumber : ∀ x, ofNumber x ≠ .int n := by
      intro x
      cases x <;> simp [ofNumber]
    cases c with
    | null => simp [rounded]
    | int n => exact hnumber _
    | real x => exact hnumber _
    | text t => exact hnumber _
  have ha := hform a
  have hb := hform b
  generalize rounded places a = c at *
  generalize rounded places b = d at *
  rcases c with _ | n | (q | (_ | _) | _) | s <;> rcases d with _ | m | (r | (_ | _) | _) | t <;>
    simp_all [Cell.rank]

section Joined

variable {s s' : Store}

end Joined

end Query
end FilmReport
