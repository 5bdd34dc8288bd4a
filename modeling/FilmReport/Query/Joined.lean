import FilmReport.Query.Relation

/-!
The joins that the queries share: movies with their ratings and genres, people with what they did,
and both together.
-/

set_option autoImplicit false
set_option relaxedAutoImplicit false

namespace FilmReport.Query

open Store

/-- Movies with their ratings. -/
def ratedMovies (s : Store) : List (MovieRow × RatingRow) :=
  join (s.rowsOf .movie) (s.rowsOf .ratings) fun m r => m.id.isSome && m.id = r.movieId

/-- Genres with their movies. -/
def genreMovies (s : Store) : List (GenreRow × MovieRow) :=
  join (s.rowsOf .genre) (s.rowsOf .movie) fun g m => m.id = some g.movieId

/-- Genres with the ratings of their movies. -/
def genreRatings (s : Store) : List (GenreRow × RatingRow) :=
  join (s.rowsOf .genre) (s.rowsOf .ratings) fun g r => r.movieId = some g.movieId

/-- Directings with the persons who directed. -/
def directedBy (s : Store) : List (DirectorRow × NameRow) :=
  join (s.rowsOf .directorMapping) (s.rowsOf .names) fun d n => n.id = some d.nameId

/-- Roles with the persons who played. -/
def playedBy (s : Store) : List (RoleRow × NameRow) :=
  join (s.rowsOf .roleMapping) (s.rowsOf .names) fun p n => n.id = some p.nameId

/-- Directings with the movies. -/
def directedMovies (s : Store) : List ((DirectorRow × NameRow) × MovieRow) :=
  join (directedBy s) (s.rowsOf .movie) fun d m => m.id = some d.1.movieId

/-- Directings with the ratings of the movies. -/
def directedRatings (s : Store) : List ((DirectorRow × NameRow) × RatingRow) :=
  join (directedBy s) (s.rowsOf .ratings) fun d r => r.movieId = some d.1.movieId

/-- Roles with the movies. -/
def playedMovies (s : Store) : List ((RoleRow × NameRow) × MovieRow) :=
  join (playedBy s) (s.rowsOf .movie) fun p m => m.id = some p.1.movieId

/-- Roles with the ratings of the movies. -/
def playedRatings (s : Store) : List ((RoleRow × NameRow) × RatingRow) :=
  join (playedBy s) (s.rowsOf .ratings) fun p r => r.movieId = some p.1.movieId

/-- Roles with the directings of the same movies. -/
def playedUnder (s : Store) : List ((RoleRow × NameRow) × (DirectorRow × NameRow)) :=
  join (playedBy s) (directedBy s) fun p d => p.1.movieId = d.1.movieId

/-- The name of a person, as a key. -/
def personName {ρ : Type} (person : ρ × NameRow) : List Cell :=
  [.text person.2.name]

/-- The average of the ratings in some rows. -/
def averageRating {ρ : Type} (rows : List (ρ × RatingRow)) : Cell :=
  average (rows.map fun row => row.2.avgRating)

/-- Whether a cell is above zero. -/
def isPositive (c : Cell) : Bool :=
  c.above (.int 0)

/-- Whether the amount of a movie is above zero. -/
def hasGross (m : MovieRow) : Bool :=
  isPositive m.grossAmount

/-- Whether cells equal those of one of some rows, and none is missing. -/
def isAmong (cells : List Cell) (rows : List (List Cell)) : Bool :=
  rows.any fun row => (cells.zip row).all fun (a, b) => a.same b

end FilmReport.Query
