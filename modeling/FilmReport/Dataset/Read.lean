import FilmReport.Dataset.Write
import FilmReport.Store.Membership
import FilmReport.Shape.Field

/-!
Reading of rows. The store holds what was written to it without looking at it; a row that is read
is checked for the shape of its record, and the first that has not is reported with all that the
check found.
-/

set_option autoImplicit false
set_option relaxedAutoImplicit false

namespace FilmReport.Dataset

open Shape

/-- A stored movie: a movie and the amount read from its reported gross income. -/
structure MovieRecord where
  movie : Movie
  grossAmount : Option Rat
deriving DecidableEq, Repr

def MovieRecord.toJson (m : MovieRecord) : Json :=
  .object <| m.movie.fields ++
    [("worldwideGrossNum", Json.ofOption (fun q => .number (.finite q)) m.grossAmount)]

/-- The named values of a stored movie. -/
def movieFields (r : Store.MovieRow) : Fields :=
  [("id", (Cell.ofText? r.id).toJson), ("title", .string r.title), ("year", r.year.toJson),
   ("datePublished", (Cell.ofText? r.datePublished).toJson), ("duration", r.duration.toJson),
   ("country", (Cell.ofText? r.country).toJson),
   ("worldwideGrossIncome", (Cell.ofText? r.grossIncome).toJson),
   ("languages", (Cell.ofText? r.languages).toJson),
   ("productionCompany", (Cell.ofText? r.productionCompany).toJson),
   ("worldwideGrossNum", r.grossAmount.toJson)]

def MovieRecord.check : Option Json → Checked MovieRecord :=
  record fun r =>
    (fun id title year date duration country gross languages company amount =>
        ⟨⟨id, title, year, date, duration, country, gross, languages, company⟩, amount⟩)
      <$> at_ "id" (text 1) r <*> at_ "title" (text 0) r
      <*> at_ "year" (nullable (integer .any)) r
      <*> at_ "datePublished" (nullable (text 0)) r
      <*> at_ "duration" (nullable (integer .any)) r
      <*> at_ "country" (nullable (text 0)) r
      <*> at_ "worldwideGrossIncome" (nullable (text 0)) r
      <*> at_ "languages" (nullable (text 0)) r
      <*> at_ "productionCompany" (nullable (text 0)) r
      <*> at_ "worldwideGrossNum" (nullable (number .any)) r

/-- The named values of a stored rating. -/
def ratingFields (r : Store.RatingRow) : Fields :=
  [("movieId", (Cell.ofText? r.movieId).toJson), ("avgRating", r.avgRating.toJson),
   ("totalVotes", r.totalVotes.toJson), ("medianRating", r.medianRating.toJson)]

/-- The check of a stored rating, whose numbers have no bounds. -/
def checkRating : Option Json → Checked Rating :=
  record fun r =>
    Rating.mk <$> at_ "movieId" (text 1) r
      <*> at_ "avgRating" (nullable (number .any)) r
      <*> at_ "totalVotes" (nullable (integer .any)) r
      <*> at_ "medianRating" (nullable (integer .any)) r

/-- A membership as it is stored. -/
structure MembershipRecord where
  movieId : String
  position : Int
  value : String
deriving DecidableEq, Repr

def MembershipRecord.toJson (m : MembershipRecord) : Json :=
  .object
    [("movieId", .string m.movieId), ("position", .ofInt m.position), ("value", .string m.value)]

/-- The named values of a stored membership. -/
def membershipFields (r : Store.MembershipRow) : Fields :=
  [("movieId", .string r.movieId), ("position", r.position.toJson), ("value", .string r.value)]

/-- A whole number above zero. -/
def positive (field : Option Json) : Checked Int :=
  (integer .any field).refine fun n => if n ≤ 0 then [⟨[], .notAbove 0⟩] else []

def MembershipRecord.check : Option Json → Checked MembershipRecord :=
  record fun r =>
    MembershipRecord.mk <$> at_ "movieId" (text 1) r <*> at_ "position" positive r
      <*> at_ "value" (text 0) r

/-- The records of rows from the index `n` on, or the fault of the first without their shape. -/
def readRows {α : Type} (check : Option Json → Checked α) (table : Table) :
    Nat → List Fields → Except Fault (List α)
  | _, [] => .ok []
  | n, row :: rest =>
    match (check (some (.object row))).toExcept with
    | .ok a => (readRows check table (n + 1) rest).map (a :: ·)
    | .error issues =>
      .error <| .create .datasetReadBackFailed "Stored row does not match the expected shape."
        [("table", .string table.name), ("rowIndex", .ofNat n),
         ("issues", .array (issues.map Issue.details))]

/-- Reads records of a table, and reports what is raised. -/
def reading {α : Type} (table : String) (context : Fields) (act : Act α) : Act α :=
  act.reporting fun cause =>
    .ofCause .datasetReadBackFailed ("Could not read rows from " ++ table ++ ".")
      (("table", .string table) :: context) cause

/-- The movies of the store, whose table must have the column of amounts. -/
def movieRows (s : Store) : Except StoreError (List Store.MovieRow) := do
  let rows ← s.rows? .movie
  if s.hasAmount then pure rows else throw (.noSuchColumn Store.amountColumn)

/-- The text that a value is in a column of identifiers; nothing has no identifier. -/
def identifier (given : Option Json) : Except StoreError (Option String) :=
  match given with
  | none => .ok none
  | some value =>
    match Cell.ofJson? value with
    | some cell => .ok cell.toText?
    | none => .error .unsupportedValue

/-- Whether an identifier is there and is the one that is wanted. -/
def identified (id wanted : Option String) : Bool :=
  id.isSome && id == wanted

/-- The movie with an identifier, if there is one. -/
def getMovie (given : Option Json) : Act (Option MovieRecord) :=
  reading "movie" (Fields.ofOption "movieId" given) do
    Act.requireOpen
    let id ← Act.ofStore (identifier given)
    let rows ← Act.look movieRows
    let found := (rows.filter fun (r : Store.MovieRow) => identified r.id id).take 1
    let records ← Act.ofExcept (readRows MovieRecord.check .movie 0 (found.map movieFields))
    pure records.head?

/-- All movies in the order of their identifiers. -/
def listMovies : Act (List MovieRecord) :=
  reading "movie" [] do
    let rows ← Act.look movieRows
    let sorted := Store.orderBy (fun (r : Store.MovieRow) => [.up (.ofText? r.id)]) rows
    Act.ofExcept (readRows MovieRecord.check .movie 0 (sorted.map movieFields))

/-- The rating of a movie, if there is one. -/
def getRating (given : Option Json) : Act (Option Rating) :=
  reading "ratings" (Fields.ofOption "movieId" given) do
    Act.requireOpen
    let id ← Act.ofStore (identifier given)
    let rows ← Act.look fun s => s.rows? .ratings
    let found := (rows.filter fun (r : Store.RatingRow) => identified r.movieId id).take 1
    let records ← Act.ofExcept (readRows checkRating .ratings 0 (found.map ratingFields))
    pure records.head?

/-- The published memberships of a kind by movie and position. -/
def listMemberships (kind : MembershipKind) : Act (List MembershipRecord) := do
  let rows ← Act.look fun s => s.publishedRows kind
  Act.ofExcept
    (readRows MembershipRecord.check kind.published 0 ((Store.byPlace rows).map membershipFields))

/-- The published memberships of what a value asks for. -/
def listAsked (asked : Option Json) : Act (List MembershipRecord) :=
  let context := Fields.ofOption "kind" asked
  match MembershipKind.Asked.of asked with
  | .kind kind => reading kind.published.name context (listMemberships kind)
  | .stray =>
    (throw (.raised (.noFunction "listMembershipStmts[kind].all")) : Act _).reporting fun cause =>
      .ofCause .datasetReadBackFailed "Could not read rows from undefined." context cause
  | .nothing => throw (.raised (.noField "undefined" "table"))

end FilmReport.Dataset
