import FilmReport.Store.Effect
import FilmReport.Store.Layout

/-!
Statements that change rows. A row that is written meets first the conditions of its table, then
its keys, then the rows it refers to; a row that is deleted takes the rows that refer to it along.
A statement that fails changes nothing, but it may have written rows that were taken back.
-/

set_option autoImplicit false
set_option relaxedAutoImplicit false

namespace FilmReport.Store

/-- The numbered rows of a table that must be there. -/
def numbered? (s : Store) (t : Table) : Except StoreError (List (Numbered t.Row)) :=
  match s.get t with
  | some rows => .ok rows
  | none => .error (.noSuchTable t.name)

/-- The rows of a table that must be there. -/
def rows? (s : Store) (t : Table) : Except StoreError (List t.Row) :=
  (s.numbered? t).map fun rows => rows.map (·.row)

/-- The proper name of a table about the other tables, if this is one of its names. -/
def catalogName? (name : String) : Option String :=
  let name := name.toLower
  if name = "sqlite_master" || name = "sqlite_schema" then some "sqlite_master"
  else if name = "sqlite_temp_master" || name = "sqlite_temp_schema" then some "sqlite_temp_master"
  else none

/-- The table with a name, for a statement that no table of what is known of the others allows. -/
def named? (refused : String → StoreError) (name : String) : Except StoreError Table :=
  match catalogName? name with
  | some proper => .error (refused proper)
  | none =>
    match Table.ofName? name with
    | some t => .ok t
    | none => .error (.noSuchTable name)

/-- The names by which the number of a row is reached. -/
def numberNames : List String := ["rowid", "oid", "_rowid_"]

/-- The column that holds the numbers of rows, if the table has one of its own. -/
def numberColumn? : Table → Option String
  | .normalizationRuns => some "id"
  | .schemaMigrations => some "id"
  | _ => none

/-- The column of a table that must have it; its name may be in letters of any case. -/
def column? (s : Store) (t : Table) (name : String) :
    Except StoreError (Column (Numbered t.Row)) :=
  let isNumber := numberNames.contains name.toLower
  let wanted := if isNumber then (numberColumn? t).getD name else name
  match (s.columnsOf t).find? fun c => c.name = wanted.toLower with
  | some c => .ok c.numbered
  | none => if isNumber then .ok .number else .error (.noSuchColumn name)

/-- The name of the column by which other tables refer to rows. -/
def identifierColumn : String := "id"

/-- The texts by which other tables refer to the rows of a table. -/
def identifiers (s : Store) : Table → List String
  | .movie => (s.rowsOf .movie).filterMap (·.id)
  | .names => (s.rowsOf .names).filterMap (·.id)
  | _ => []

/-- The tables that the rows of a table refer to are there. -/
def parentsPresent (s : Store) (t : Table) : Except StoreError Unit :=
  match (layout t).references.find? fun ref => !s.has ref.parent with
  | some ref => .error (.noSuchTable ("main." ++ ref.parent.name))
  | none => .ok ()

/-- The row that a reference of a row names is there. -/
def referenceHolds {ρ : Type} (s : Store) (ref : Reference ρ) (row : ρ) : Bool :=
  match ref.of row with
  | some id => (s.identifiers ref.parent).contains id
  | none => true

/-- The rows that a row refers to are there. -/
def referencesHold (s : Store) (t : Table) (row : t.Row) : Bool :=
  (layout t).references.all fun ref => s.referenceHolds ref row

/-- The first condition of its table that a row breaks. -/
def meetsConditions (t : Table) (row : t.Row) : Except StoreError Unit :=
  match (layout t).conditions.find? fun c => !c.holds row with
  | some c => .error (.check c.text)
  | none => .ok ()

/-- Whether two rows have the same key. -/
def sameKey {ρ : Type} (key : Key ρ) (a b : ρ) : Bool :=
  match key.of a, key.of b with
  | some k, some l => k.map Cell.normal = l.map Cell.normal
  | _, _ => false

/-- No row of a list has a key of the given row. -/
def keysFree (t : Table) (rows : List t.Row) (row : t.Row) : Except StoreError Unit :=
  match (layout t).keys.find? fun key => rows.any (sameKey key row) with
  | some key => .error (.unique t.name key.columns key.isPrimary)
  | none => .ok ()

/-- Whether two rows have the same primary key. -/
def sameRow (t : Table) (a b : t.Row) : Bool :=
  match (layout t).keys with
  | key :: _ => sameKey key a b
  | [] => false

/-- What becomes of a row whose primary key is taken. -/
inductive Conflict (ρ : Type) where
  /-- The statement fails. -/
  | refuse
  /-- The row that is there stays. -/
  | keep
  /-- The row that is there is merged with the new one. -/
  | merge (f : ρ → ρ → ρ)

/-- Rows in the order of their numbers. -/
def byNumber {ρ : Type} (rows : List (Numbered ρ)) : List (Numbered ρ) :=
  rows.mergeSort fun a b => a.number ≤ b.number

/-- The number after those of all rows. -/
def nextNumber {ρ : Type} : List (Numbered ρ) → Int
  | [] => 1
  | first :: rest => rest.foldl (fun n row => max n row.number) first.number + 1

/-- Whether a row is left out because the one that is there stays. -/
def isKept {t : Table} (conflict : Conflict t.Row) (row : t.Row) (s : Store) : Bool :=
  match conflict with
  | .keep => (s.rowsOf t).any (sameRow t row)
  | _ => false

/-- Writes one row. -/
def insert (t : Table) (conflict : Conflict t.Row) (row : t.Row) (s : Store) :
    Except StoreError Store := do
  let numbered ← s.numbered? t
  let rows := numbered.map (·.row)
  s.parentsPresent t
  meetsConditions t row
  let append : Except StoreError Store := do
    keysFree t rows row
    if s.referencesHold t row then
      pure (s.put t (some (numbered ++ [⟨nextNumber numbered, row⟩])))
    else throw .foreignKey
  match conflict with
  | .refuse => append
  | .keep => if rows.any (sameRow t row) then pure s else append
  | .merge f =>
    match rows.find? (sameRow t row) with
    | some old => do
      meetsConditions t (f old row)
      pure (s.put t (some (numbered.map fun n =>
        if sameRow t row n.row then { n with row := f n.row row } else n)))
    | none => append

/-- Whether an update of a column is refused because it would change the identifier of a movie. -/
def keepsIdentity : (t : Table) → t.Row → t.Row → Bool
  | .movie, old, new => old.id = new.id
  | _, _, _ => true

/-- The key of a column that belongs to one is free for a row, and so is its number. -/
def placeFree (t : Table) (name : String) (rows : List (Numbered t.Row))
    (new : Numbered t.Row) : Except StoreError Unit :=
  if name = Column.numberName then
    if rows.any fun n => n.number = new.number then .error (.numberTaken t.name) else .ok ()
  else if (layout t).keys.any fun key => key.columns.contains name then
    keysFree t (rows.map (·.row)) new.row
  else .ok ()

/-- A row with a new value in a column, if it may have it beside the other rows. -/
def updateRow (t : Table) (column : Column (Numbered t.Row)) (value : Cell)
    (others : List (Numbered t.Row)) (old : Numbered t.Row) :
    Except StoreError (Numbered t.Row) := do
  let new ← column.put value old
  if keepsIdentity t old.row new.row then pure () else throw .immutableId
  meetsConditions t new.row
  placeFree t column.name others new
  pure new

/--
The rows after each of `todo` that `which` selects got the new value, in their order, and how many
they are; or why one cannot get it, and how many got it before.
-/
def updateRows (t : Table) (column : Column (Numbered t.Row)) (value : Cell)
    (which : Numbered t.Row → Bool) (n : Nat) :
    List (Numbered t.Row) → List (Numbered t.Row) →
      Except (StoreError × Nat) (Nat × List (Numbered t.Row))
  | done, [] => .ok (n, done)
  | done, row :: todo =>
    if which row then
      match updateRow t column value (done ++ todo) row with
      | .ok new => updateRows t column value which (n + 1) (done ++ [new]) todo
      | .error e => .error (e, n)
    else updateRows t column value which n (done ++ [row]) todo

/-- Whether every row of every table that refers to `parent` refers to a row that is there. -/
def childrenHold (s : Store) (parent : Table) : Bool :=
  Table.all.all fun t =>
    (layout t).references.all fun ref =>
      ref.parent ≠ parent || (s.rowsOf t).all (s.referenceHolds ref)

/-- What selects rows of a table in a store, if it can be made ready. -/
abbrev Selection (t : Table) := Store → Except StoreError (Numbered t.Row → Bool)

/-- All that an update needs is there: the rows, the column, and the table that it refers to. -/
def updatable (t : Table) (name : String) (which : Selection t) (s : Store) :
    Except StoreError
      (List (Numbered t.Row) × Column (Numbered t.Row) × (Numbered t.Row → Bool)) := do
  let rows ← s.numbered? t
  let column ← s.column? t name
  let selects ← which s
  match (layout t).references.find? fun ref => ref.column = column.name && !s.has ref.parent with
  | some ref => throw (.noSuchTable ("main." ++ ref.parent.name))
  | none => pure (rows, column, selects)

/-- What an update of a column refers to, and what refers to it, is there. -/
def updateHolds (t : Table) (name : String) (s : Store) : Bool :=
  ((layout t).references.all fun ref =>
    ref.column ≠ name || (s.rowsOf t).all (s.referenceHolds ref)) &&
  (name ≠ identifierColumn || s.childrenHold t)

/-- Gives a column a value in the rows that `which` selects; answers how many there were. -/
def update (t : Table) (name : String) (value : Cell) (which : Selection t) (s : Store) :
    Effect Nat :=
  match s.updatable t name which with
  | .error e => .failed e false
  | .ok (rows, column, selects) =>
    match updateRows t column value selects 0 [] rows with
    | .error (e, n) => .failed e (n ≠ 0)
    | .ok (0, _) => .done 0 s false
    | .ok (n, rows) =>
      let rows := if column.name = Column.numberName then byNumber rows else rows
      let after := s.put t (some rows)
      if updateHolds t column.name after then .done n after true
      else .failed .foreignKey true

/-- The rows whose column equals a value drawn to the kind of the column. -/
def whereEquals (t : Table) (name : String) (value : Cell) : Selection t := fun s => do
  let column ← s.column? t name
  pure fun row => (column.get row).same (column.draw value)

/-- The tables whose rows refer to a table. -/
def childrenOf (parent : Table) : List Table :=
  Table.all.filter fun t => (layout t).references.any fun ref => ref.parent = parent

/-- Whether a row refers to one of the given rows of a table. -/
def refersTo (t parent : Table) (gone : List String) (row : t.Row) : Bool :=
  (layout t).references.any fun ref =>
    ref.parent = parent &&
      match ref.of row with
      | some id => gone.contains id
      | none => false

/-- Takes the rows of a table that refer to rows that are gone. -/
def cascade (parent : Table) (gone : List String) (s : Store) (t : Table) : Store :=
  s.put t ((s.get t).map fun rows => rows.filter fun n => !refersTo t parent gone n.row)

/-- All tables needed to delete rows of a table, and rows that refer to them, are there. -/
def deletable (s : Store) (t : Table) : Except StoreError Unit := do
  s.parentsPresent t
  ((childrenOf t).filter fun child => s.has child).forM fun child => s.parentsPresent child

/-- The identifiers of the rows of a table. -/
def idsOf : (t : Table) → List t.Row → List String
  | .movie, rows => rows.filterMap (·.id)
  | .names, rows => rows.filterMap (·.id)
  | _, _ => []

/-- Deletes the rows that `which` selects and what refers to them; answers how many it selects. -/
def delete (t : Table) (which : Selection t) (s : Store) : Except StoreError (Nat × Store) := do
  let rows ← s.numbered? t
  let selects ← which s
  s.deletable t
  let gone := (rows.filter selects).map (·.row)
  let after := s.put t (some (rows.filter fun row => !selects row))
  pure (gone.length, (childrenOf t).foldl (cascade t (idsOf t gone)) after)

/-- Every row. -/
def everyRow (t : Table) : Selection t :=
  fun _ => .ok fun _ => true

/-- Whether a row counts the numbers given in a table. -/
def counts (t : Table) (n : Numbered SequenceRow) : Bool :=
  n.row.table.same (.text t.name)

/-- The greatest number ever given in a table, as far as it is known. -/
def lastGiven (t : Table) (s : Store) : Int :=
  match (s.sequences.getD []).find? (counts t) with
  | some n => n.row.last.toWhole
  | none => 0

/-- A new count in place of the first of a table. -/
def putCount (t : Table) (last : Int) :
    List (Numbered SequenceRow) → List (Numbered SequenceRow)
  | [] => []
  | n :: rest =>
    if counts t n then { n with row := ⟨.text t.name, .int last⟩ } :: rest
    else n :: putCount t last rest

/-- A number becomes the greatest ever given in a table. -/
def giveLast (t : Table) (last : Int) (s : Store) : Store :=
  { s with
    sequences := s.sequences.map fun rows =>
      if rows.any (counts t) then putCount t last rows
      else rows ++ [⟨nextNumber rows, ⟨.text t.name, .int last⟩⟩] }

/-- The counter of a table is forgotten. -/
def forget (t : Table) (s : Store) : Store :=
  { s with
    sequences := s.sequences.map fun rows => rows.filter fun n => !counts t n }

/-- Removes a table, and first, if others refer to it, its rows and theirs. -/
def drop (t : Table) (s : Store) : Except StoreError Store := do
  let _ ← s.numbered? t
  let emptied ←
    if (childrenOf t).isEmpty then pure s
    else do
      let (_, after) ← s.delete t (everyRow t)
      pure after
  let s := emptied.put t none
  match t with
  | .movie => pure { s with hasAmount := false }
  | .normalizationRuns => pure (s.forget t)
  | .sequences => throw (.notDroppable t.name)
  | _ => pure s

/-- Makes a table that is not there; one whose numbers are never given twice needs a counter. -/
def create (t : Table) (s : Store) : Store :=
  if s.has t then s
  else
    let s := s.put t (some [])
    match t with
    | .normalizationRuns => { s with sequences := some (s.sequences.getD []) }
    | _ => s

end FilmReport.Store
