import FilmReport.Session.Transaction
import FilmReport.Store.Write

/-!
Migrations. The tables come in two steps, each applied once, in order, and recorded with its time;
a step that fails leaves nothing behind.
-/

set_option autoImplicit false
set_option relaxedAutoImplicit false

namespace FilmReport

/-- A step in the making of the tables. -/
inductive Migration where
  /-- The tables of the dataset. -/
  | dataset
  /-- The column of amounts, the tables of memberships and the record of runs. -/
  | normalization
deriving DecidableEq, Repr

namespace Migration

/-- All steps in their order. -/
def all : List Migration := [dataset, normalization]

def id : Migration → Int
  | dataset => 1
  | normalization => 2

def name : Migration → String
  | dataset => "001-movie-dataset-schema"
  | normalization => "002-normalization-schema"

def datasetTables : List Table :=
  [.movie, .names, .genre, .directorMapping, .roleMapping, .ratings]

def normalizationTables : List Table :=
  [.movieCountry, .stagedCountry, .movieLanguage, .stagedLanguage, .normalizationRuns]

/-- Makes those of some tables that are not there. -/
def createAll (tables : List Table) (s : Store) : Store :=
  tables.foldl (fun acc t => acc.create t) s

/-- The store with the column of amounts, empty in every movie. -/
def addAmount (s : Store) : Except StoreError Store := do
  let _ ← s.rows? .movie
  if s.hasAmount then throw (.duplicateColumn Store.amountColumn)
  else pure { s with hasAmount := true }

/-- What a step makes. -/
def apply (m : Migration) (s : Store) : Except StoreError Store :=
  match m with
  | dataset => .ok (createAll datasetTables s)
  | normalization => (addAmount s).map (createAll normalizationTables)

/-- Applies a step and records it. -/
def perform (m : Migration) : Act Unit := do
  Act.prepareTransactions
  Act.transact do
    Act.change fun s => .storing (m.apply s) true
    let now ← Act.readClock
    Act.change fun s =>
      let row : Store.MigrationRow := ⟨m.id, m.name, now⟩
      .storing (s.insert .schemaMigrations .refuse row) true

/-- Makes the table that records the steps, if it is not there, and reads which were applied. -/
def recorded : Act (List String) := do
  let present ← Act.look fun s => .ok (s.has .schemaMigrations)
  if present then pure ()
  else Act.change fun s => .done () (s.create .schemaMigrations) true
  Act.look fun s => (s.rows? .schemaMigrations).map fun (rows : List Store.MigrationRow) =>
    rows.map (·.name)

/-- Which steps a call applied and which it found applied. -/
structure Applied where
  now : List String
  before : List String
deriving DecidableEq, Repr

def Applied.toJson (a : Applied) : Json :=
  .object [("applied", .strings a.now), ("alreadyApplied", .strings a.before)]

/-- The fault of a call that failed at a step after it applied others. -/
def failure (step : Option String) (applied : List String) (cause : String) : Fault :=
  .ofCause .dbMigrationFailed "Database migrations failed."
    [("failedMigration", Json.ofOption .string step), ("applied", .strings applied)] cause

/-- Applies those of the steps that are not recorded. -/
def applyMissing (names : List String) (done : Applied) : List Migration → Act Applied
  | [] => pure done
  | m :: rest =>
    if names.contains m.name then
      applyMissing names { done with before := done.before ++ [m.name] } rest
    else do
      (perform m).reporting (failure (some m.name) done.now)
      applyMissing names { done with now := done.now ++ [m.name] } rest

/-- Brings the tables up to date. -/
def run : Act Applied := do
  let names ← recorded.reporting (failure none [])
  applyMissing names ⟨[], []⟩ all

end Migration
end FilmReport
