import FilmReport.Store.Cell

/-!
Order of rows by several keys, the first one that differs deciding. Rows with equal keys keep the
order in which they came.
-/

set_option autoImplicit false
set_option relaxedAutoImplicit false

namespace FilmReport.Store

/-- A cell by which rows are ordered, upward or downward. -/
inductive SortKey where
  | up (cell : Cell)
  | down (cell : Cell)
deriving Repr

def SortKey.compare : SortKey → SortKey → Ordering
  | up a, up b => a.compare b
  | down a, down b => b.compare a
  | up _, down _ => .lt
  | down _, up _ => .gt

/-- The order of lists of keys. -/
def compareKeys : List SortKey → List SortKey → Ordering
  | a :: as, b :: bs =>
    match a.compare b with
    | .eq => compareKeys as bs
    | o => o
  | [], [] => .eq
  | [], _ => .lt
  | _, [] => .gt

/-- The rows in the order of their keys. -/
def orderBy {ρ : Type} (keys : ρ → List SortKey) (rows : List ρ) : List ρ :=
  rows.mergeSort fun a b => compareKeys (keys a) (keys b) != .gt

/-- Ordering neither loses nor doubles a row. -/
theorem orderBy_perm {ρ : Type} (keys : ρ → List SortKey) (rows : List ρ) :
    (orderBy keys rows).Perm rows :=
  List.mergeSort_perm rows _

@[simp]
theorem mem_orderBy {ρ : Type} {keys : ρ → List SortKey} {rows : List ρ} {row : ρ} :
    row ∈ orderBy keys rows ↔ row ∈ rows :=
  (orderBy_perm keys rows).mem_iff

end FilmReport.Store
