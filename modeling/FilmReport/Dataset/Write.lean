import FilmReport.Session.Transaction
import FilmReport.Store.Write
import FilmReport.Store.Snapshot
import FilmReport.Dataset.Record

/-!
Writing of rows. Each kind of row has the names of its values in the order of its columns, and a
rule for a row whose key is taken: movies, names, roles and ratings are merged, genres and
directings stay as they are.
-/

set_option autoImplicit false
set_option relaxedAutoImplicit false

namespace FilmReport.Dataset

/-- A kind of row that is written from named values. -/
structure RowKind where
  table : Table
  parameters : List String
  conflict : Store.Conflict table.Row

namespace RowKind

/-- Movies; a movie that is there keeps its identifier and its amount. -/
def movies : RowKind where
  table := .movie
  parameters :=
    ["id", "title", "year", "datePublished", "duration", "country", "worldwideGrossIncome",
     "languages", "productionCompany"]
  conflict := .merge fun (old new : Store.MovieRow) =>
    { new with id := old.id, grossAmount := old.grossAmount }

def names : RowKind where
  table := .names
  parameters := ["id", "name", "height", "dateOfBirth", "knownForMovies"]
  conflict := .merge fun (old new : Store.NameRow) => { new with id := old.id }

def genres : RowKind where
  table := .genre
  parameters := ["movieId", "genre"]
  conflict := .keep

def directings : RowKind where
  table := .directorMapping
  parameters := ["movieId", "nameId"]
  conflict := .keep

def castings : RowKind where
  table := .roleMapping
  parameters := ["movieId", "nameId", "category"]
  conflict := .merge fun (old new : Store.RoleRow) => { old with category := new.category }

def ratings : RowKind where
  table := .ratings
  parameters := ["movieId", "avgRating", "totalVotes", "medianRating"]
  conflict := .merge fun (old new : Store.RatingRow) => { new with movieId := old.movieId }

/-- The row of cells in the order of the columns, if the tables that it needs are there. -/
def row (kind : RowKind) (cells : List Cell) (s : Store) : Except StoreError kind.table.Row := do
  let _ ← s.rows? kind.table
  s.parentsPresent kind.table
  Store.fill ((Store.layout kind.table).columns.zip cells) (Store.blankRow kind.table)

/-- The store with a row of cells written, unless the row that is there stays. -/
def insert (kind : RowKind) (cells : List Cell) (s : Store) : Effect Unit :=
  match kind.row cells s with
  | .ok row => .storing (s.insert kind.table kind.conflict row) (!Store.isKept kind.conflict row s)
  | .error e => .failed e false

end RowKind

/-- Writes one row. -/
def writeRow (kind : RowKind) (given : Json) : Act Unit := do
  let cells ← Act.ofStore (Store.bind kind.parameters given)
  Act.change (kind.insert cells)

/-- The fault of rows of a kind that could not be written, with their number if they have one. -/
def writeFault (kind : RowKind) (items : Option Json) (cause : String) : Fault :=
  .ofCause .datasetWriteFailed ("Could not write rows to " ++ kind.table.name ++ ".")
    (("table", .string kind.table.name) :: Fields.ofOption "items" items) cause

/-- Writes rows of a kind, all or none; a fault tells their number as `items`. -/
def writeCounted (kind : RowKind) (inputs : List Json) (items : Nat) : Act Unit :=
  (Act.transact (inputs.forM (writeRow kind))).reporting
    (writeFault kind (some (.ofNat items)))

/-- Writes rows of a kind, all or none. -/
def write (kind : RowKind) (inputs : List Json) : Act Unit :=
  writeCounted kind inputs inputs.length

/--
Writes what a value holds: the items of a list or the characters of a text. Nothing else can be gone
through, and what has no length cannot even be reported on.
-/
def writeAll (kind : RowKind) (given : Option Json) : Act Unit :=
  match given with
  | none => throw (.raised (.noField "undefined" "length"))
  | some .null => throw (.raised (.noField "null" "length"))
  | some (.array inputs) => write kind inputs
  | some (.string text) =>
    let characters := text.toList.map fun c => Json.string (String.singleton c)
    writeCounted kind characters (Text.units text).length
  | some value =>
    (Act.transact (throw (.raised (.other "inputs is not iterable")))).reporting
      (writeFault kind (value.get? "length"))

/-- The tables that the statements of the dataset need, in the order of the statements. -/
def neededTables : List Table :=
  [.movie, .names, .genre, .directorMapping, .roleMapping, .ratings]

/-- All statements that write and read the dataset can be made ready. -/
def ready (s : Store) : Except StoreError Unit := do
  neededTables.forM fun t => (s.rows? t).map fun _ => ()
  if s.hasAmount then pure () else throw (.noSuchColumn Store.amountColumn)
  [Table.movieCountry, .movieLanguage].forM fun t => (s.rows? t).map fun _ => ()

/-- Makes the statements of the dataset ready in a session. -/
def prepare : Act Unit := do
  Act.peek ready
  Act.prepareTransactions

end FilmReport.Dataset
