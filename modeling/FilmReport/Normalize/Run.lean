import FilmReport.Normalize.Rebuild
import FilmReport.Normalize.Standardize
import FilmReport.Json.Printer

/-!
Normalization runs. A run coerces gross incomes, rebuilds countries and languages and standardizes
missing values, in this order, and stops at the first failure. Every run leaves a record of how far
it came.
-/

set_option autoImplicit false
set_option relaxedAutoImplicit false

namespace FilmReport.Normalize

/-- How a run ended. -/
inductive Status where
  | completed
  | completedWithWarnings
  | failed
deriving DecidableEq, Repr

def Status.text : Status → String
  | completed => "completed"
  | completedWithWarnings => "completed_with_warnings"
  | failed => "failed"

/-- What the completed stages of a run did. -/
structure Progress where
  grossParsed : Nat
  grossAbsent : Nat
  grossInvalid : Nat
  countryRows : Nat
  languageRows : Nat
  standardized : Fields
deriving Repr

def Progress.start : Progress := ⟨0, 0, 0, 0, 0, []⟩

/-- The record of a run. -/
structure RunRecord where
  status : Status
  startedAt : String
  finishedAt : String
  progress : Progress
  options : SplitOptions
  error : Option Fault
deriving Repr

/-- The record as a row with a number. -/
def RunRecord.row (r : RunRecord) (id : Int) : Store.RunRow where
  id := id
  status := r.status.text
  startedAt := r.startedAt
  finishedAt := r.finishedAt
  grossParsed := .int r.progress.grossParsed
  grossAbsent := .int r.progress.grossAbsent
  grossInvalid := .int r.progress.grossInvalid
  countryRows := .int r.progress.countryRows
  languageRows := .int r.progress.languageRows
  standardizedJson := Json.compact (.object r.progress.standardized)
  optionsJson := Json.compact (.object r.options.fields)
  errorCode := r.error.map (·.code.text)
  errorMessage := r.error.map (·.message)

/-- The number of the next run, greater than all that are there and all that were given. -/
def nextRun (given : Int) : List Store.RunRow → Int
  | [] => max given 0 + 1
  | first :: rest => rest.foldl (fun n row => max n row.id) (max given first.id) + 1

/-- Adds the record of a run; answers its number. -/
def addRun (r : RunRecord) (s : Store) : Except StoreError (Int × Store) := do
  let rows ← s.rows? .normalizationRuns
  let id := nextRun (s.lastGiven .normalizationRuns) rows
  if Cell.isStorable id then pure () else throw .full
  let after ← s.insert .normalizationRuns .refuse (r.row id)
  pure (id, after.giveLast .normalizationRuns id)

/-- Records a run; answers its number. -/
def recordRun (r : RunRecord) : Act Int :=
  (Act.change fun s => .writing (addRun r s)).reporting fun cause =>
    .ofCause .lineageFailed "Could not record the normalization run."
      [("status", .string r.status.text)] cause

/-- What a run that did not fail did. -/
structure Run where
  runId : Int
  status : Status
  startedAt : String
  finishedAt : String
  progress : Progress
  warnings : List Fault
deriving Repr

def Run.toJson (stamp : String) (r : Run) : Json :=
  .object
    [("runId", .ofInt r.runId), ("status", .string r.status.text),
     ("startedAt", .string r.startedAt), ("finishedAt", .string r.finishedAt),
     ("parsedGrossIncome", .ofNat r.progress.grossParsed),
     ("absentGrossIncome", .ofNat r.progress.grossAbsent),
     ("invalidGrossIncome", .ofNat r.progress.grossInvalid),
     ("countryRows", .ofNat r.progress.countryRows),
     ("languageRows", .ofNat r.progress.languageRows),
     ("standardized", .object r.progress.standardized),
     ("warnings", .array (r.warnings.map (Fault.toJson stamp)))]

/-- What the stages of a run are given. -/
structure Stages where
  logger : Journal.Logger
  options : SplitOptions
  startedAt : String

namespace Stages

/-- Ends a failed run: the failure is logged and recorded, then reported. -/
def fail {α : Type} (st : Stages) (progress : Progress) (fault : Fault) : Act α := do
  Act.log st.logger .error "normalization failed"
    [("code", .string fault.code.text), ("message", .string fault.message),
     ("context", .object fault.context)]
  let finishedAt ← Act.readClock
  let record : RunRecord :=
    ⟨.failed, st.startedAt, finishedAt, progress, st.options, some fault⟩
  match ← (recordRun record).outcome with
  | .ok _ => pure ()
  | .error (.fault f) =>
    Act.log st.logger .error "failed run was not recorded"
      (("code", .string f.code.text) ::
        match f.cause with
        | some cause => [("cause", .string cause)]
        | none => [])
  | .error failure => throw failure
  Act.report fault

/-- Does a stage; if it reports a fault, the run fails with what was done before. -/
def stage {α : Type} (st : Stages) (progress : Progress) (act : Act α) : Act α := do
  match ← act.outcome with
  | .ok a => pure a
  | .error (.fault fault) => st.fail progress fault
  | .error failure => throw failure

/-- The four stages; answers what they did and the warnings. -/
def perform (st : Stages) : Act (Progress × List Fault) := do
  let progress := Progress.start
  let gross ← st.stage progress (coerce st.logger)
  let progress :=
    { progress with
      grossParsed := gross.parsed, grossAbsent := gross.absent, grossInvalid := gross.invalid }
  Act.log st.logger .info "gross income coerced"
    [("parsed", .ofNat gross.parsed), ("absent", .ofNat gross.absent),
     ("invalid", .ofNat gross.invalid)]
  let country ← st.stage progress (rebuildWith st.logger .country st.options)
  let progress := { progress with countryRows := country.insertedRows }
  let language ← st.stage progress (rebuildWith st.logger .language st.options)
  let progress := { progress with languageRows := language.insertedRows }
  let counts ← st.stage progress (standardize st.logger)
  pure ({ progress with standardized := counts }, gross.warnings)

end Stages

/-- Normalizes the store with the options that the given fields ask for. -/
def run (logger : Journal.Logger) (given : Fields) : Act Run := do
  let logger := logger.withContext [("component", .string "normalizer")]
  let options ← Act.ofExcept (SplitOptions.resolve given)
  let startedAt ← Act.readClock
  Act.log logger .info "normalization started" [("options", .object options.fields)]
  let (progress, warnings) ← (Stages.mk logger options startedAt).perform
  let status := if warnings.isEmpty then Status.completed else .completedWithWarnings
  let finishedAt ← Act.readClock
  let runId ← recordRun ⟨status, startedAt, finishedAt, progress, options, none⟩
  Act.log logger .info "normalization finished"
    [("runId", .ofInt runId), ("status", .string status.text), ("warnings", .ofNat warnings.length)]
  pure ⟨runId, status, startedAt, finishedAt, progress, warnings⟩

end FilmReport.Normalize
