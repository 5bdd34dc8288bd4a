import FilmReport.Store.Cell

/-!
Rows of the tables. A text column that must hold something is a `String`, one that may be
missing an `Option String`; number columns keep cells, since a column draws values to its kind
without refusing others.
-/

set_option autoImplicit false
set_option relaxedAutoImplicit false

namespace FilmReport.Store

structure MovieRow where
  id : Option String
  title : String
  year : Cell
  datePublished : Option String
  duration : Cell
  country : Option String
  grossIncome : Option String
  languages : Option String
  productionCompany : Option String
  /-- The amount read from `grossIncome`. -/
  grossAmount : Cell
deriving DecidableEq, Repr

structure NameRow where
  id : Option String
  name : String
  height : Cell
  dateOfBirth : Option String
  knownForMovies : Option String
deriving DecidableEq, Repr

structure GenreRow where
  movieId : String
  genre : String
deriving DecidableEq, Repr

structure DirectorRow where
  movieId : String
  nameId : String
deriving DecidableEq, Repr

structure RoleRow where
  movieId : String
  nameId : String
  category : String
deriving DecidableEq, Repr

structure RatingRow where
  movieId : Option String
  avgRating : Cell
  totalVotes : Cell
  medianRating : Cell
deriving DecidableEq, Repr

/-- A country or a language of a movie, at its place in the source text. -/
structure MembershipRow where
  movieId : String
  position : Cell
  value : String
deriving DecidableEq, Repr

/-- The record of one normalization. -/
structure RunRow where
  id : Int
  status : String
  startedAt : String
  finishedAt : String
  grossParsed : Cell
  grossAbsent : Cell
  grossInvalid : Cell
  countryRows : Cell
  languageRows : Cell
  standardizedJson : String
  optionsJson : String
  errorCode : Option String
  errorMessage : Option String
deriving DecidableEq, Repr

/-- The record of one applied migration. -/
structure MigrationRow where
  id : Int
  name : String
  appliedAt : String
deriving DecidableEq, Repr

/-- The greatest number ever given in a table; nothing draws its values to a kind. -/
structure SequenceRow where
  table : Cell
  last : Cell
deriving DecidableEq, Repr

/-- A row with its number in the table. -/
structure Numbered (ρ : Type) where
  number : Int
  row : ρ
deriving DecidableEq, Repr

end FilmReport.Store
