import FilmReport.Store.Table
import FilmReport.Store.Error

/-!
The layout of every table: its columns, its keys, the conditions on a row and the rows of other
tables that a row refers to.
-/

set_option autoImplicit false
set_option relaxedAutoImplicit false

namespace FilmReport.Store

/-- A column of a row: what it holds, and the row with another value drawn to its kind. -/
structure Column (ρ : Type) where
  name : String
  get : ρ → Cell
  put : Cell → ρ → Except StoreError ρ
  /-- A value as it is compared with what the column holds. -/
  draw : Cell → Cell

namespace Column

variable {ρ : Type}

private def drawText (c : Cell) : Cell :=
  .ofText? c.toText?

def optionalText (name : String) (get : ρ → Option String) (set : Option String → ρ → ρ) :
    Column ρ :=
  ⟨name, fun r => .ofText? (get r), fun c r => .ok (set c.toText? r), drawText⟩

/-- A text column of a table that must hold something. -/
def requiredText (table name : String) (get : ρ → String) (set : String → ρ → ρ) : Column ρ :=
  ⟨name, fun r => .text (get r), fun c r =>
    match c.toText? with
    | some s => .ok (set s r)
    | none => .error (.notNull table name), drawText⟩

def integer (name : String) (get : ρ → Cell) (set : Cell → ρ → ρ) : Column ρ :=
  ⟨name, get, fun c r => .ok (set c.toInteger r), Cell.toInteger⟩

/-- An integer column of a table that must hold something. -/
def requiredInteger (table name : String) (get : ρ → Cell) (set : Cell → ρ → ρ) : Column ρ :=
  ⟨name, get, fun c r =>
    if c.isNull then .error (.notNull table name) else .ok (set c.toInteger r), Cell.toInteger⟩

def real (name : String) (get : ρ → Cell) (set : Cell → ρ → ρ) : Column ρ :=
  ⟨name, get, fun c r => .ok (set c.toRealCell r), Cell.toInteger⟩

/-- The number of a row, which takes nothing but integers. -/
def rowNumber (name : String) (get : ρ → Int) (set : Int → ρ → ρ) : Column ρ :=
  ⟨name, fun r => .int (get r), fun c r =>
    match c.toInteger with
    | .int n => .ok (set n r)
    | _ => .error .wrongKeyKind, Cell.toInteger⟩

/-- A column that keeps values as they are. -/
def plain (name : String) (get : ρ → Cell) (set : Cell → ρ → ρ) : Column ρ :=
  ⟨name, get, fun c r => .ok (set c r), id⟩

/-- A column of rows as one of numbered rows. -/
def numbered (column : Column ρ) : Column (Numbered ρ) :=
  ⟨column.name, fun n => column.get n.row,
    fun c n => (column.put c n.row).map fun r => { n with row := r }, column.draw⟩

/-- The name of the column of numbers where a table has none of its own. -/
def numberName : String := "rowid"

/-- The number of a row in its table as a column. -/
def number : Column (Numbered ρ) :=
  .rowNumber numberName (·.number) fun k n => { n with number := k }

end Column

/-- Columns whose values together tell rows apart; rows with a missing value are not compared. -/
structure Key (ρ : Type) where
  columns : List String
  isPrimary : Bool
  of : ρ → Option (List Cell)

/-- A condition on rows, with its wording. -/
structure Condition (ρ : Type) where
  text : String
  holds : ρ → Bool

/-- A column that names a row of another table, unless it is missing. -/
structure Reference (ρ : Type) where
  column : String
  parent : Table
  of : ρ → Option String

/-- All that the store knows of the rows of a table. -/
structure Layout (ρ : Type) where
  columns : List (Column ρ)
  keys : List (Key ρ)
  conditions : List (Condition ρ)
  references : List (Reference ρ)

/-- Whether a cell is missing or at least `n`. -/
def atLeast (n : Int) (c : Cell) : Bool :=
  c.isNull || Cell.compare c (.int n) != .lt

/-- Whether a cell is missing or at most `n`. -/
def atMost (n : Int) (c : Cell) : Bool :=
  c.isNull || Cell.compare c (.int n) != .gt

def textKey (id : Option String) : Option (List Cell) :=
  id.map fun s => [.text s]

def movieReference {ρ : Type} (of : ρ → Option String) : Reference ρ :=
  ⟨"movie_id", .movie, of⟩

def nameReference {ρ : Type} (of : ρ → Option String) : Reference ρ :=
  ⟨"name_id", .names, of⟩

/-- The name of the column of read amounts. -/
def amountColumn : String := "worldwide_gross_num"

def movieLayout : Layout MovieRow where
  columns :=
    [.optionalText "id" (·.id) fun v r => { r with id := v },
     .requiredText "movie" "title" (·.title) fun v r => { r with title := v },
     .integer "year" (·.year) fun v r => { r with year := v },
     .optionalText "date_published" (·.datePublished) fun v r => { r with datePublished := v },
     .integer "duration" (·.duration) fun v r => { r with duration := v },
     .optionalText "country" (·.country) fun v r => { r with country := v },
     .optionalText "worldwide_gross_income" (·.grossIncome) fun v r => { r with grossIncome := v },
     .optionalText "languages" (·.languages) fun v r => { r with languages := v },
     .optionalText "production_company" (·.productionCompany)
       fun v r => { r with productionCompany := v },
     .real amountColumn (·.grossAmount) fun v r => { r with grossAmount := v }]
  keys := [⟨["id"], true, fun r => textKey r.id⟩]
  conditions := [⟨"duration IS NULL OR duration >= 0", fun r => atLeast 0 r.duration⟩]
  references := []

def nameLayout : Layout NameRow where
  columns :=
    [.optionalText "id" (·.id) fun v r => { r with id := v },
     .requiredText "names" "name" (·.name) fun v r => { r with name := v },
     .integer "height" (·.height) fun v r => { r with height := v },
     .optionalText "date_of_birth" (·.dateOfBirth) fun v r => { r with dateOfBirth := v },
     .optionalText "known_for_movies" (·.knownForMovies) fun v r => { r with knownForMovies := v }]
  keys := [⟨["id"], true, fun r => textKey r.id⟩]
  conditions := []
  references := []

def genreLayout : Layout GenreRow where
  columns :=
    [.requiredText "genre" "movie_id" (·.movieId) fun v r => { r with movieId := v },
     .requiredText "genre" "genre" (·.genre) fun v r => { r with genre := v }]
  keys := [⟨["movie_id", "genre"], true, fun r => some [.text r.movieId, .text r.genre]⟩]
  conditions := []
  references := [movieReference fun r => some r.movieId]

def directorLayout : Layout DirectorRow where
  columns :=
    [.requiredText "director_mapping" "movie_id" (·.movieId) fun v r => { r with movieId := v },
     .requiredText "director_mapping" "name_id" (·.nameId) fun v r => { r with nameId := v }]
  keys := [⟨["movie_id", "name_id"], true, fun r => some [.text r.movieId, .text r.nameId]⟩]
  conditions := []
  references := [nameReference fun r => some r.nameId, movieReference fun r => some r.movieId]

def roleLayout : Layout RoleRow where
  columns :=
    [.requiredText "role_mapping" "movie_id" (·.movieId) fun v r => { r with movieId := v },
     .requiredText "role_mapping" "name_id" (·.nameId) fun v r => { r with nameId := v },
     .requiredText "role_mapping" "category" (·.category) fun v r => { r with category := v }]
  keys := [⟨["movie_id", "name_id"], true, fun r => some [.text r.movieId, .text r.nameId]⟩]
  conditions :=
    [⟨"category IN ('actor', 'actress')", fun r => r.category = "actor" || r.category = "actress"⟩]
  references := [nameReference fun r => some r.nameId, movieReference fun r => some r.movieId]

def ratingLayout : Layout RatingRow where
  columns :=
    [.optionalText "movie_id" (·.movieId) fun v r => { r with movieId := v },
     .real "avg_rating" (·.avgRating) fun v r => { r with avgRating := v },
     .integer "total_votes" (·.totalVotes) fun v r => { r with totalVotes := v },
     .integer "median_rating" (·.medianRating) fun v r => { r with medianRating := v }]
  keys := [⟨["movie_id"], true, fun r => textKey r.movieId⟩]
  conditions :=
    [⟨"avg_rating IS NULL OR (avg_rating >= 0 AND avg_rating <= 10)",
      fun r => atLeast 0 r.avgRating && atMost 10 r.avgRating⟩,
     ⟨"total_votes IS NULL OR total_votes >= 0", fun r => atLeast 0 r.totalVotes⟩,
     ⟨"median_rating IS NULL OR (median_rating >= 0 AND median_rating <= 10)",
      fun r => atLeast 0 r.medianRating && atMost 10 r.medianRating⟩]
  references := [movieReference (·.movieId)]

/-- A table of memberships; only the published ones refer to movies. -/
def membershipLayout (table valueColumn : String) (published : Bool) : Layout MembershipRow where
  columns :=
    [.requiredText table "movie_id" (·.movieId) fun v r => { r with movieId := v },
     .requiredInteger table "position" (·.position) fun v r => { r with position := v },
     .requiredText table valueColumn (·.value) fun v r => { r with value := v }]
  keys := [⟨["movie_id", "position"], true, fun r => some [.text r.movieId, r.position]⟩]
  conditions := [⟨"position >= 1", fun r => atLeast 1 r.position⟩]
  references := if published then [movieReference fun r => some r.movieId] else []

def runLayout : Layout RunRow where
  columns :=
    [.rowNumber "id" (·.id) fun v r => { r with id := v },
     .requiredText table "status" (·.status) fun v r => { r with status := v },
     .requiredText table "started_at" (·.startedAt) fun v r => { r with startedAt := v },
     .requiredText table "finished_at" (·.finishedAt) fun v r => { r with finishedAt := v },
     .requiredInteger table "gross_parsed" (·.grossParsed) fun v r => { r with grossParsed := v },
     .requiredInteger table "gross_absent" (·.grossAbsent) fun v r => { r with grossAbsent := v },
     .requiredInteger table "gross_invalid" (·.grossInvalid)
       fun v r => { r with grossInvalid := v },
     .requiredInteger table "country_rows" (·.countryRows) fun v r => { r with countryRows := v },
     .requiredInteger table "language_rows" (·.languageRows)
       fun v r => { r with languageRows := v },
     .requiredText table "standardized_json" (·.standardizedJson)
       fun v r => { r with standardizedJson := v },
     .requiredText table "options_json" (·.optionsJson) fun v r => { r with optionsJson := v },
     .optionalText "error_code" (·.errorCode) fun v r => { r with errorCode := v },
     .optionalText "error_message" (·.errorMessage) fun v r => { r with errorMessage := v }]
  keys := [⟨["id"], true, fun r => some [.int r.id]⟩]
  conditions :=
    [⟨"status IN ('completed', 'completed_with_warnings', 'failed')",
      fun r =>
        r.status = "completed" || r.status = "completed_with_warnings" || r.status = "failed"⟩,
     ⟨"gross_parsed >= 0", fun r => atLeast 0 r.grossParsed⟩,
     ⟨"gross_absent >= 0", fun r => atLeast 0 r.grossAbsent⟩,
     ⟨"gross_invalid >= 0", fun r => atLeast 0 r.grossInvalid⟩,
     ⟨"country_rows >= 0", fun r => atLeast 0 r.countryRows⟩,
     ⟨"language_rows >= 0", fun r => atLeast 0 r.languageRows⟩]
  references := []
where
  table : String := "normalization_runs"

def migrationLayout : Layout MigrationRow where
  columns :=
    [.rowNumber "id" (·.id) fun v r => { r with id := v },
     .requiredText "schema_migrations" "name" (·.name) fun v r => { r with name := v },
     .requiredText "schema_migrations" "applied_at" (·.appliedAt)
       fun v r => { r with appliedAt := v }]
  keys :=
    [⟨["id"], true, fun r => some [.int r.id]⟩, ⟨["name"], false, fun r => some [.text r.name]⟩]
  conditions := []
  references := []

def sequenceLayout : Layout SequenceRow where
  columns :=
    [.plain "name" (·.table) fun v r => { r with table := v },
     .plain "seq" (·.last) fun v r => { r with last := v }]
  keys := []
  conditions := []
  references := []

/-- The layout of each table. -/
def layout : (t : Table) → Layout t.Row
  | .movie => movieLayout
  | .names => nameLayout
  | .genre => genreLayout
  | .directorMapping => directorLayout
  | .roleMapping => roleLayout
  | .ratings => ratingLayout
  | .movieCountry => membershipLayout "movie_country" "country" true
  | .stagedCountry => membershipLayout "stg_movie_country" "country" false
  | .movieLanguage => membershipLayout "movie_language" "language" true
  | .stagedLanguage => membershipLayout "stg_movie_language" "language" false
  | .normalizationRuns => runLayout
  | .schemaMigrations => migrationLayout
  | .sequences => sequenceLayout

/-- The columns that a table has now: the column of read amounts comes with a later migration. -/
def columnsOf (s : Store) (t : Table) : List (Column t.Row) :=
  (layout t).columns.filter fun c => t ≠ .movie || c.name ≠ amountColumn || s.hasAmount

end FilmReport.Store
