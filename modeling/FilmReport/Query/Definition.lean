import FilmReport.Query.Params
import FilmReport.Query.Value
import FilmReport.Query.Relation
import FilmReport.Store.Write

/-!
Definitions of queries. A statement says which tables it needs, which parameters it uses and which
rows it answers; a definition gives a statement an identifier, a label and the parameters that it is
handed.
-/

set_option autoImplicit false
set_option relaxedAutoImplicit false

namespace FilmReport.Query

/-- What a statement puts into a column of a row. -/
inductive Datum where
  | cell (value : Cell)
  /-- A value that no report can print. -/
  | blob
deriving DecidableEq, Repr

/-- A statement of the store. -/
structure Statement where
  /-- The wording in which the statement is reported. -/
  text : String
  columns : List String
  /-- The statement can be made ready: all its tables and columns are there. -/
  prepare : Store → Except StoreError Unit
  /-- The parameters that it uses. -/
  bound : List Param
  /-- Whether it answers rows. -/
  answers : Bool
  rows : Params → Store → List (List Datum)

structure Definition where
  id : String
  segment : Nat
  label : String
  parameters : List Param
  statement : Statement

/-- The lines of a statement as its wording. -/
def wording (lines : List String) : String :=
  "\n" ++ String.join (lines.map fun line => "      " ++ line ++ "\n") ++ "    "

/-- All of some tables are there. -/
def needs (tables : List Table) (s : Store) : Except StoreError Unit :=
  tables.forM fun t => (s.rows? t).map fun _ => ()

/-- All of some tables are there, and the column of amounts, which the statement calls `column`. -/
def needsAmount (tables : List Table) (column : String) (s : Store) : Except StoreError Unit := do
  needs tables s
  if s.hasAmount then pure () else throw (.noSuchColumn column)

/-- A statement that answers cells. -/
def select (lines columns : List String) (prepare : Store → Except StoreError Unit)
    (bound : List Param) (rows : Params → Store → List (List Cell)) : Statement where
  text := wording lines
  columns := columns
  prepare := prepare
  bound := bound
  answers := true
  rows := fun p s => (rows p s).map fun row => row.map .cell

end FilmReport.Query
