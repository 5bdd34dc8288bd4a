import FilmReport.Store.Exchange

/-!
Snapshots: a store as a JSON value, table by table and cell by cell, with every number as a
binary64. A column draws the cells that are put back to its kind.
-/

set_option autoImplicit false
set_option relaxedAutoImplicit false

namespace FilmReport.Store

/-- A row into whose columns the cells of a snapshot are put. -/
def blankRow : (t : Table) → t.Row
  | .movie => (⟨none, "", .null, none, .null, none, none, none, none, .null⟩ : MovieRow)
  | .names => (⟨none, "", .null, none, none⟩ : NameRow)
  | .genre => (⟨"", ""⟩ : GenreRow)
  | .directorMapping => (⟨"", ""⟩ : DirectorRow)
  | .roleMapping => (⟨"", "", ""⟩ : RoleRow)
  | .ratings => (⟨none, .null, .null, .null⟩ : RatingRow)
  | .movieCountry | .stagedCountry | .movieLanguage | .stagedLanguage =>
    (⟨"", .null, ""⟩ : MembershipRow)
  | .normalizationRuns =>
    (⟨0, "", "", "", .null, .null, .null, .null, .null, "", "", none, none⟩ : RunRow)
  | .schemaMigrations => (⟨0, "", ""⟩ : MigrationRow)
  | .sequences => (⟨.null, .null⟩ : SequenceRow)

/-- The columns of a snapshot of a table: the number of a row, and those of the table. -/
def snapshotColumns (t : Table) : List (Column (Numbered t.Row)) :=
  .number :: (layout t).columns.map .numbered

/-- The rows of a table as lists of cells, or nothing if the table is absent. -/
def tableSnapshot (s : Store) (t : Table) : Json :=
  Json.ofOption
    (fun rows => .array (rows.map fun row =>
      .array ((snapshotColumns t).map fun c => (c.get row).toJson)))
    (s.get t)

/-- The store as a value. -/
def snapshot (s : Store) : Json :=
  .object
    [("tables", .object (Table.all.map fun t => (t.name, s.tableSnapshot t))),
     ("hasAmount", .bool s.hasAmount)]

/-- The row that a list of cells is. -/
def readRow (t : Table) (value : Json) : Option (Numbered t.Row) :=
  match value with
  | .array values =>
    match values.mapM Cell.ofJson? with
    | some cells => (fill ((snapshotColumns t).zip cells) ⟨0, blankRow t⟩).toOption
    | none => none
  | _ => none

/-- The store with the rows of a table read from a snapshot. -/
def readTable (tables : Fields) (s : Store) (t : Table) : Option Store :=
  match tables.get? t.name with
  | some (.array rows) => (rows.mapM (readRow t)).map fun rows => s.put t (some rows)
  | some .null => some s
  | _ => none

/-- The store of a snapshot. -/
def ofSnapshot? (value : Json) : Option Store :=
  match value.get? "tables", value.get? "hasAmount" with
  | some (.object tables), some (.bool hasAmount) =>
    Table.all.foldlM (readTable tables) { empty with hasAmount := hasAmount }
  | _, _ => none

end FilmReport.Store
