import FilmReport.Json.Basic

/-!
Records of a dataset: movies, people, genres, who directed and who played, and ratings. A record is
also a list of named values, the form in which it is written to the store and printed.
-/

set_option autoImplicit false
set_option relaxedAutoImplicit false

namespace FilmReport.Dataset

structure Movie where
  id : String
  title : String
  year : Option Int
  datePublished : Option String
  duration : Option Int
  country : Option String
  grossIncome : Option String
  languages : Option String
  productionCompany : Option String
deriving DecidableEq, Repr

structure Name where
  id : String
  name : String
  height : Option Int
  dateOfBirth : Option String
  knownForMovies : Option String
deriving DecidableEq, Repr

structure Genre where
  movieId : String
  genre : String
deriving DecidableEq, Repr

/-- A person who directed a movie. -/
structure Directing where
  movieId : String
  nameId : String
deriving DecidableEq, Repr

/-- What a person plays as. -/
inductive Category where
  | actor | actress
deriving DecidableEq, Repr

namespace Category

def text : Category → String
  | actor => "actor"
  | actress => "actress"

def listed : List Category := [actor, actress]

end Category

/-- A person who played in a movie. -/
structure Casting where
  movieId : String
  nameId : String
  category : Category
deriving DecidableEq, Repr

structure Rating where
  movieId : String
  avgRating : Option Rat
  totalVotes : Option Int
  medianRating : Option Int
deriving DecidableEq, Repr

private def text? : Option String → Json :=
  Json.ofOption .string

private def int? : Option Int → Json :=
  Json.ofOption .ofInt

def Movie.fields (m : Movie) : Fields :=
  [("id", .string m.id), ("title", .string m.title), ("year", int? m.year),
   ("datePublished", text? m.datePublished), ("duration", int? m.duration),
   ("country", text? m.country), ("worldwideGrossIncome", text? m.grossIncome),
   ("languages", text? m.languages), ("productionCompany", text? m.productionCompany)]

def Name.fields (n : Name) : Fields :=
  [("id", .string n.id), ("name", .string n.name), ("height", int? n.height),
   ("dateOfBirth", text? n.dateOfBirth), ("knownForMovies", text? n.knownForMovies)]

def Genre.fields (g : Genre) : Fields :=
  [("movieId", .string g.movieId), ("genre", .string g.genre)]

def Directing.fields (d : Directing) : Fields :=
  [("movieId", .string d.movieId), ("nameId", .string d.nameId)]

def Casting.fields (c : Casting) : Fields :=
  [("movieId", .string c.movieId), ("nameId", .string c.nameId),
   ("category", .string c.category.text)]

def Rating.fields (r : Rating) : Fields :=
  [("movieId", .string r.movieId),
   ("avgRating", Json.ofOption (fun q => .number (.finite q)) r.avgRating),
   ("totalVotes", int? r.totalVotes), ("medianRating", int? r.medianRating)]

end FilmReport.Dataset
