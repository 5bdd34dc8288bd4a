import FilmReport.Dataset.Record
import FilmReport.Shape.Field
import FilmReport.Fault.Basic
import FilmReport.Json.Parser

/-!
Datasets as they come from a file. A dataset is accepted when every record has the fields of its
kind and no two movies share an identifier; fields that may be missing are then filled and unknown
ones dropped.
-/

set_option autoImplicit false
set_option relaxedAutoImplicit false

namespace FilmReport

open Dataset in
/-- An accepted dataset. -/
structure Dataset where
  generatedAt : String
  movies : List Movie
  names : List Name
  genres : List Genre
  directings : List Directing
  castings : List Casting
  ratings : List Rating
deriving DecidableEq, Repr

namespace Dataset

open Shape

def toJson (d : Dataset) : Json :=
  .object
    [("generatedAt", .string d.generatedAt),
     ("movies", .array (d.movies.map fun r => .object r.fields)),
     ("names", .array (d.names.map fun r => .object r.fields)),
     ("genres", .array (d.genres.map fun r => .object r.fields)),
     ("directorMappings", .array (d.directings.map fun r => .object r.fields)),
     ("roleMappings", .array (d.castings.map fun r => .object r.fields)),
     ("ratings", .array (d.ratings.map fun r => .object r.fields))]

def Movie.check : Option Json → Checked Movie :=
  record fun r =>
    Movie.mk <$> at_ "id" (text 1) r <*> at_ "title" (text 1) r
      <*> at_ "year" (nullable (integer .any)) r
      <*> at_ "datePublished" (nullable date) r
      <*> at_ "duration" (nullable (integer (.from_ 0))) r
      <*> at_ "country" (nullable (text 0)) r
      <*> at_ "worldwideGrossIncome" (nullable (text 0)) r
      <*> at_ "languages" (nullable (text 0)) r
      <*> at_ "productionCompany" (nullable (text 0)) r

def Name.check : Option Json → Checked Name :=
  record fun r =>
    Name.mk <$> at_ "id" (text 1) r <*> at_ "name" (text 1) r
      <*> at_ "height" (nullable (integer .any)) r
      <*> at_ "dateOfBirth" (nullable date) r
      <*> at_ "knownForMovies" (nullable (text 0)) r

def Genre.check : Option Json → Checked Genre :=
  record fun r => Genre.mk <$> at_ "movieId" (text 1) r <*> at_ "genre" (text 1) r

def Directing.check : Option Json → Checked Directing :=
  record fun r => Directing.mk <$> at_ "movieId" (text 1) r <*> at_ "nameId" (text 1) r

def Category.check : Option Json → Checked Category :=
  option Category.listed Category.text (Category.listed.map Category.text)

def Casting.check : Option Json → Checked Casting :=
  record fun r =>
    Casting.mk <$> at_ "movieId" (text 1) r <*> at_ "nameId" (text 1) r
      <*> at_ "category" Category.check r

def Rating.check : Option Json → Checked Rating :=
  record fun r =>
    Rating.mk <$> at_ "movieId" (text 1) r
      <*> at_ "avgRating" (nullable (number (.between 0 10))) r
      <*> at_ "totalVotes" (nullable (integer (.from_ 0))) r
      <*> at_ "medianRating" (nullable (integer (.between 0 10))) r

/-- The issues of movies, from the index `n` on, whose identifier came before. -/
def duplicates (seen : List String) : Nat → List Movie → List Issue
  | _, [] => []
  | n, m :: rest =>
    let more := duplicates (m.id :: seen) (n + 1) rest
    if seen.contains m.id then
      ⟨[.field "movies", .index n, .field "id"], .custom ("Duplicate movie id " ++ m.id)⟩ :: more
    else more

def check (field : Option Json) : Checked Dataset :=
  let fields := record (fun r =>
    Dataset.mk <$> at_ "generatedAt" dateTime r <*> at_ "movies" (list 0 Movie.check) r
      <*> at_ "names" (listOrEmpty Name.check) r
      <*> at_ "genres" (listOrEmpty Genre.check) r
      <*> at_ "directorMappings" (listOrEmpty Directing.check) r
      <*> at_ "roleMappings" (listOrEmpty Casting.check) r
      <*> at_ "ratings" (listOrEmpty Rating.check) r) field
  fields.refine fun d => duplicates [] 0 d.movies

/-- The dataset in a value that came from `source`. -/
def parse (value : Option Json) (source : String) : Except Fault Dataset :=
  match (check value).toExcept with
  | .ok d => .ok d
  | .error issues =>
    .error <| .create .datasetInvalid "Dataset file has an invalid format."
      [("source", .string source), ("issues", .array (issues.map Issue.toJson))]

/-- The dataset in the text of the file at `path`; the text is missing when there is no file. -/
def load (path : String) (content : Except String String) : Except Fault Dataset :=
  let unreadable (cause : String) : Fault :=
    .ofCause .datasetReadFailed "Could not read the dataset file."
      [("filePath", .string path)] cause
  match content with
  | .error cause => .error (unreadable cause)
  | .ok text =>
    match Json.parse? text with
    | some value => parse (some value) path
    | none => .error (unreadable "The text is not JSON")

end Dataset
end FilmReport
