import FilmReport.Normalize.Amount
import FilmReport.Session.Transaction
import FilmReport.Store.Write
import FilmReport.Store.Order
import FilmReport.Shape.Field

/-!
Coercion of reported gross incomes. Every movie gets the amount that its reported text gives, and
none when the text gives none; a text that is no amount is also reported as a warning.
-/

set_option autoImplicit false
set_option relaxedAutoImplicit false

namespace FilmReport.Normalize

open Shape

/-- A text field of a movie, with the identifier of the movie. -/
structure Source where
  movieId : String
  raw : Option String
deriving DecidableEq, Repr

namespace Source

/-- The named values of a field, under the name that the reader gives it. -/
def fields (rawName : String) (id raw : Option String) : Fields :=
  [("movieId", Json.ofOption .string id), (rawName, Json.ofOption .string raw)]

def check (rawName : String) : Option Json → Checked Source :=
  record fun r => Source.mk <$> at_ "movieId" (text 1) r <*> at_ rawName (nullable (text 0)) r

/-- The fields of movies, or what is wrong with the first that has not the shape of one. -/
def read (rawName : String) (raw : Store.MovieRow → Option String) :
    List Store.MovieRow → Except (List Issue) (List Source)
  | [] => .ok []
  | m :: rest =>
    match (check rawName (some (.object (fields rawName m.id (raw m))))).toExcept with
    | .ok source => (read rawName raw rest).map (source :: ·)
    | .error issues => .error issues

end Source

/-- Movies in the order of their identifiers. -/
def byId (rows : List Store.MovieRow) : List Store.MovieRow :=
  Store.orderBy (fun r => [.up (.ofText? r.id)]) rows

/-- The cell of an amount. -/
def Amount.cell : Amount → Cell
  | .parsed cents => .real (units cents)
  | _ => .null

/-- The store with the amount of every movie read from its reported text. -/
def setAmounts (s : Store) : Store :=
  { s with
    movie := s.movie.map fun rows =>
      rows.map fun n =>
        { n with row := { n.row with grossAmount := (Amount.read n.row.grossIncome).cell } } }

/-- How many texts gave an amount, how many were missing and how many were no amount. -/
structure Coercion where
  parsed : Nat
  absent : Nat
  invalid : Nat
  /-- One warning for each text that is no amount. -/
  warnings : List Fault
deriving Repr

namespace Coercion

def toJson (stamp : String) (c : Coercion) : Json :=
  .object
    [("parsed", .ofNat c.parsed), ("absent", .ofNat c.absent), ("invalid", .ofNat c.invalid),
     ("warnings", .array (c.warnings.map (Fault.toJson stamp)))]

/-- The warning of a text that is no amount. -/
def warning (movieId raw : String) (flaw : AmountFlaw) : Fault :=
  .warning .grossIncomeUnparseable "Gross income value could not be parsed."
    [("movieId", .string movieId), ("raw", .string raw), ("reason", .string flaw.text)]

/-- What the texts of all movies give. -/
def ofSources : List Source → Coercion
  | [] => ⟨0, 0, 0, []⟩
  | source :: rest =>
    let c := ofSources rest
    match Amount.read source.raw with
    | .absent => { c with absent := c.absent + 1 }
    | .parsed _ => { c with parsed := c.parsed + 1 }
    | .invalid raw flaw =>
      { c with invalid := c.invalid + 1, warnings := warning source.movieId raw flaw :: c.warnings }

end Coercion

/-- The fault of a movie row without the shape of a source. -/
def shapelessCoercion (issues : List Issue) : Fault :=
  .create .coercionFailed "Movie row has an unexpected shape."
    [("issues", .array (issues.map Issue.details))]

/-- Whether amounts can be written. -/
def amountsWritable (s : Store) : Except StoreError Unit :=
  if s.hasAmount then .ok () else .error (.noSuchColumn Store.amountColumn)

/-- Reads the amount of every movie. -/
def coerce (logger : Journal.Logger) : Act Coercion :=
  let logger := logger.withContext [("stage", .string "gross-income")]
  Act.inTransaction "normalizer.gross-income" <|
    Act.reporting (Fault.ofCause .coercionFailed "Gross income coercion failed." []) do
      let rows ← Act.look fun s => s.rows? .movie
      Act.look amountsWritable
      match Source.read "rawGross" (·.grossIncome) (byId rows) with
      | .error issues => Act.report (shapelessCoercion issues)
      | .ok sources => do
        if sources.isEmpty then pure () else Act.change fun s => .done () (setAmounts s) true
        let coercion := Coercion.ofSources sources
        coercion.warnings.forM fun w => Act.log logger .warning w.message w.context
        pure coercion

end FilmReport.Normalize
