import FilmReport.Store.Table
import FilmReport.Store.Order
import FilmReport.Binary64.Arithmetic

/-!
Operations on rows: pairing, grouping, totals of a group, and order by columns. Missing values are
left out of every total, and a total of nothing is missing.
-/

set_option autoImplicit false
set_option relaxedAutoImplicit false

namespace FilmReport.Query

open Store (SortKey)

variable {α β : Type}

/-- The pairs of rows that belong together. -/
def join (left : List α) (right : List β) (on : α → β → Bool) : List (α × β) :=
  left.flatMap fun a => (right.filter (on a)).map fun b => (a, b)

theorem mem_join {left : List α} {right : List β} {on : α → β → Bool} {a : α} {b : β} :
    (a, b) ∈ join left right on ↔ a ∈ left ∧ b ∈ right ∧ on a b = true := by
  simp only [join, List.mem_flatMap, List.mem_map, List.mem_filter, Prod.mk.injEq]
  constructor
  · rintro ⟨_, ha, _, hb, rfl, rfl⟩
    exact ⟨ha, hb⟩
  · rintro ⟨ha, hb⟩
    exact ⟨a, ha, b, hb, rfl, rfl⟩

/-- The different keys of rows, in the order in which they first come. -/
def keysOf (key : α → List Cell) : List α → List (List Cell)
  | [] => []
  | row :: rest => key row :: (keysOf key rest).filter fun k => k ≠ key row

/-- The keys are those of the rows. -/
theorem mem_keysOf {key : α → List Cell} {rows : List α} {k : List Cell} :
    k ∈ keysOf key rows ↔ ∃ row ∈ rows, key row = k := by
  induction rows with
  | nil => simp [keysOf]
  | cons row rest ih =>
    rw [keysOf, List.mem_cons, List.mem_filter, ih]
    constructor
    · rintro (rfl | ⟨⟨other, hother, rfl⟩, _⟩)
      · exact ⟨row, List.mem_cons_self, rfl⟩
      · exact ⟨other, List.mem_cons_of_mem row hother, rfl⟩
    · rintro ⟨other, hother, rfl⟩
      by_cases h : key other = key row
      · exact Or.inl h
      · rcases List.mem_cons.1 hother with rfl | hrest
        · exact absurd rfl h
        · exact Or.inr ⟨⟨other, hrest, rfl⟩, decide_eq_true h⟩

/-- No key comes twice. -/
theorem nodup_keysOf (key : α → List Cell) (rows : List α) : (keysOf key rows).Nodup := by
  induction rows with
  | nil => exact List.nodup_nil
  | cons row rest ih =>
    rw [keysOf, List.nodup_cons]
    refine ⟨?_, ih.filter _⟩
    intro h
    exact of_decide_eq_true (List.mem_filter.1 h).2 rfl

/-- The rows with a key. -/
def withKey (key : α → List Cell) (k : List Cell) (rows : List α) : List α :=
  rows.filter fun row => key row = k

/-- The key of a row, with each cell taken as the one that stands for all equal ones. -/
def normalKey (key : α → List Cell) (row : α) : List Cell :=
  (key row).map Cell.normal

/-- For each key of rows, the key and what is made of the rows with an equal one. -/
def grouped (key : α → List Cell) (total : List α → List Cell) (rows : List α) :
    List (List Cell) :=
  (keysOf (normalKey key) rows).map fun k => k ++ total (withKey (normalKey key) k rows)

theorem mem_grouped {key : α → List Cell} {total : List α → List Cell} {rows : List α}
    {out : List Cell} :
    out ∈ grouped key total rows ↔
      ∃ row ∈ rows,
        out = normalKey key row ++ total (withKey (normalKey key) (normalKey key row) rows) := by
  rw [grouped, List.mem_map]
  constructor
  · rintro ⟨k, hk, rfl⟩
    obtain ⟨row, hrow, rfl⟩ := mem_keysOf.1 hk
    exact ⟨row, hrow, rfl⟩
  · rintro ⟨row, hrow, rfl⟩
    exact ⟨normalKey key row, mem_keysOf.2 ⟨row, hrow, rfl⟩, rfl⟩

/-- A number of rows. -/
def count (rows : List α) : Cell :=
  .int rows.length

/-- The cells that hold something. -/
def present (cells : List Cell) : List Cell :=
  cells.filter fun c => !c.isNull

/-- The number of different cells that hold something. -/
def countDistinct (cells : List Cell) : Cell :=
  .int (keysOf (normalKey fun c => [c]) (present cells)).length

/-- The cell of a result of arithmetic; what is no number is missing. -/
def ofNumber : Binary64 → Cell
  | .nan => .null
  | x => .real x

/-- A sum on the way: an exact integer as long as it is storable, a compensated sum after that. -/
inductive Tally where
  | exact (n : Int)
  | approximate (sum : Binary64.RunningSum)
deriving DecidableEq, Repr

namespace Tally

/-- Adds a cell. -/
def add : Tally → Cell → Tally
  | exact n, .int m =>
    if Cell.isStorable (n + m) then exact (n + m)
    else approximate ((Binary64.RunningSum.ofInt n).pushInt m)
  | exact n, c => approximate ((Binary64.RunningSum.ofInt n).push c.toReal)
  | approximate s, .int m => approximate (s.pushInt m)
  | approximate s, c => approximate (s.push c.toReal)

/-- The sum as a number. -/
def value : Tally → Binary64
  | exact n => .ofInt n
  | approximate s => s.value

/-- The sum as a cell. -/
def cell : Tally → Cell
  | exact n => .int n
  | approximate s => ofNumber s.value

/-- The sum of cells. -/
def ofCells (cells : List Cell) : Tally :=
  cells.foldl add (exact 0)

end Tally

/-- The sum of the cells that hold something. -/
def sum (cells : List Cell) : Cell :=
  match present cells with
  | [] => .null
  | cells => (Tally.ofCells cells).cell

/-- The average of the cells that hold something. -/
def average (cells : List Cell) : Cell :=
  match present cells with
  | [] => .null
  | cells => ofNumber ((Tally.ofCells cells).value.div (.ofInt cells.length))

/-- The greatest of the cells that hold something. -/
def greatest (cells : List Cell) : Cell :=
  (present cells).foldl (fun best c => if best.isNull || Cell.above c best then c else best) .null

/-- A cell rounded to decimals. -/
def rounded (places : Nat) : Cell → Cell
  | .null => .null
  | c => ofNumber (c.toReal.roundPlaces places)

/-- The quotient of two cells; there is none by zero. -/
def quotient : Cell → Cell → Cell
  | .null, _ => .null
  | _, .null => .null
  | a, b => if b.toReal = .finite 0 then .null else ofNumber (a.toReal.div b.toReal)

/-- The share of a cell in another, in hundredths. -/
def percentage (part whole : Cell) : Cell :=
  match part with
  | .null => .null
  | c => quotient (ofNumber (c.toReal.mul (.ofInt 100))) whole

/-- A column by which rows are ordered, counted from 0. -/
inductive By where
  | up (column : Nat)
  | down (column : Nat)
deriving Repr

/-- The cell of a row in a column. -/
def cellAt (row : List Cell) (column : Nat) : Cell :=
  row.getD column .null

def By.key (row : List Cell) : By → SortKey
  | up column => .up (cellAt row column)
  | down column => .down (cellAt row column)

/-- Rows in the order of columns, the first one that differs deciding. -/
def sortBy (order : List By) (rows : List (List Cell)) : List (List Cell) :=
  Store.orderBy (fun row => order.map (By.key row)) rows

end FilmReport.Query
