import FilmReport.Store.Row

/-!
The tables of the store and the store itself. A table may be absent; `get` and `put` reach every
table by its name, and `get_put` and `get_put_of_ne` say that a write shows in its own table alone.
-/

set_option autoImplicit false
set_option relaxedAutoImplicit false

namespace FilmReport

/-- The tables by name. -/
inductive Table where
  | movie | names | genre | directorMapping | roleMapping | ratings
  | movieCountry | stagedCountry | movieLanguage | stagedLanguage
  | normalizationRuns | schemaMigrations | sequences
deriving DecidableEq, Repr

namespace Table

def name : Table → String
  | movie => "movie"
  | names => "names"
  | genre => "genre"
  | directorMapping => "director_mapping"
  | roleMapping => "role_mapping"
  | ratings => "ratings"
  | movieCountry => "movie_country"
  | stagedCountry => "stg_movie_country"
  | movieLanguage => "movie_language"
  | stagedLanguage => "stg_movie_language"
  | normalizationRuns => "normalization_runs"
  | schemaMigrations => "schema_migrations"
  | sequences => "sqlite_sequence"

def all : List Table :=
  [movie, names, genre, directorMapping, roleMapping, ratings, movieCountry, stagedCountry,
   movieLanguage, stagedLanguage, normalizationRuns, schemaMigrations, sequences]

/-- The table with a name, in letters of any case. -/
def ofName? (s : String) : Option Table :=
  all.find? fun t => t.name = s.toLower

open Store in
/-- The rows that a table holds. -/
abbrev Row : Table → Type
  | movie => MovieRow
  | names => NameRow
  | genre => GenreRow
  | directorMapping => DirectorRow
  | roleMapping => RoleRow
  | ratings => RatingRow
  | movieCountry => MembershipRow
  | stagedCountry => MembershipRow
  | movieLanguage => MembershipRow
  | stagedLanguage => MembershipRow
  | normalizationRuns => RunRow
  | schemaMigrations => MigrationRow
  | sequences => SequenceRow

end Table

open Store in
/-- All tables; the rows of each stand in the order of their numbers. -/
structure Store where
  movie : Option (List (Numbered MovieRow))
  /-- Whether the movie table has the column of read amounts. -/
  hasAmount : Bool
  names : Option (List (Numbered NameRow))
  genre : Option (List (Numbered GenreRow))
  directorMapping : Option (List (Numbered DirectorRow))
  roleMapping : Option (List (Numbered RoleRow))
  ratings : Option (List (Numbered RatingRow))
  movieCountry : Option (List (Numbered MembershipRow))
  stagedCountry : Option (List (Numbered MembershipRow))
  movieLanguage : Option (List (Numbered MembershipRow))
  stagedLanguage : Option (List (Numbered MembershipRow))
  normalizationRuns : Option (List (Numbered RunRow))
  schemaMigrations : Option (List (Numbered MigrationRow))
  sequences : Option (List (Numbered SequenceRow))
deriving DecidableEq

namespace Store

/-- The store without tables. -/
def empty : Store :=
  ⟨none, false, none, none, none, none, none, none, none, none, none, none, none, none⟩

instance : Inhabited Store := ⟨empty⟩

def get (s : Store) : (t : Table) → Option (List (Numbered t.Row))
  | .movie => s.movie
  | .names => s.names
  | .genre => s.genre
  | .directorMapping => s.directorMapping
  | .roleMapping => s.roleMapping
  | .ratings => s.ratings
  | .movieCountry => s.movieCountry
  | .stagedCountry => s.stagedCountry
  | .movieLanguage => s.movieLanguage
  | .stagedLanguage => s.stagedLanguage
  | .normalizationRuns => s.normalizationRuns
  | .schemaMigrations => s.schemaMigrations
  | .sequences => s.sequences

def put (s : Store) : (t : Table) → Option (List (Numbered t.Row)) → Store
  | .movie, rows => { s with movie := rows }
  | .names, rows => { s with names := rows }
  | .genre, rows => { s with genre := rows }
  | .directorMapping, rows => { s with directorMapping := rows }
  | .roleMapping, rows => { s with roleMapping := rows }
  | .ratings, rows => { s with ratings := rows }
  | .movieCountry, rows => { s with movieCountry := rows }
  | .stagedCountry, rows => { s with stagedCountry := rows }
  | .movieLanguage, rows => { s with movieLanguage := rows }
  | .stagedLanguage, rows => { s with stagedLanguage := rows }
  | .normalizationRuns, rows => { s with normalizationRuns := rows }
  | .schemaMigrations, rows => { s with schemaMigrations := rows }
  | .sequences, rows => { s with sequences := rows }

@[simp]
theorem get_put (s : Store) (t : Table) (rows : Option (List (Numbered t.Row))) :
    (s.put t rows).get t = rows := by
  cases t <;> rfl

theorem get_put_of_ne (s : Store) {t u : Table} (rows : Option (List (Numbered t.Row)))
    (h : u ≠ t) : (s.put t rows).get u = s.get u := by
  cases t <;> cases u <;> first | rfl | exact absurd rfl h

/-- Whether a table is there. -/
def has (s : Store) (t : Table) : Bool :=
  (s.get t).isSome

/-- The rows of a table, none if the table is absent. -/
def rowsOf (s : Store) (t : Table) : List t.Row :=
  ((s.get t).getD []).map (·.row)

end Store
end FilmReport
