import FilmReport.Json.Basic
import FilmReport.Text.Upper

/-!
Faults: failures that the program reports as values. A fault has a code of the catalogue, a
severity, a context of named values and perhaps the message of what caused it; the time is added
when it is written out.
-/

set_option autoImplicit false
set_option relaxedAutoImplicit false

namespace FilmReport

namespace Fault

/-- How grave a fault is; `unlisted` keeps a word outside the catalogue. -/
inductive Severity where
  | fatal | error | warning | info
  | unlisted (name : String)
deriving DecidableEq, Repr

namespace Severity

def text : Severity → String
  | fatal => "fatal"
  | error => "error"
  | warning => "warning"
  | info => "info"
  | unlisted name => name

/-- The severities of the catalogue. -/
def listed : List Severity := [fatal, error, warning, info]

def ofText (s : String) : Severity :=
  (listed.find? fun x => x.text = s).getD (unlisted s)

end Severity

/-- What failed; `unlisted` keeps a code outside the catalogue. -/
inductive Code where
  | configInvalid
  | cliArgsInvalid
  | dbOpenFailed
  | dbCloseFailed
  | dbTransactionFailed
  | dbMigrationFailed
  | datasetReadFailed
  | datasetInvalid
  | datasetWriteFailed
  | datasetReadBackFailed
  | grossIncomeUnparseable
  | coercionFailed
  | membershipRebuildFailed
  | standardizationFailed
  | lineageFailed
  | optionsInvalid
  | queryUnknown
  | queryParamsInvalid
  | queryFailed
  | queryRowInvalid
  | exportInvalidInput
  | exportDirCreateFailed
  | exportWriteFailed
  | exportInvalidOutput
  | unlisted (name : String)
deriving DecidableEq, Repr

namespace Code

def text : Code → String
  | configInvalid => "CONFIG_INVALID"
  | cliArgsInvalid => "CLI_ARGS_INVALID"
  | dbOpenFailed => "DB_OPEN_FAILED"
  | dbCloseFailed => "DB_CLOSE_FAILED"
  | dbTransactionFailed => "DB_TRANSACTION_FAILED"
  | dbMigrationFailed => "DB_MIGRATION_FAILED"
  | datasetReadFailed => "DATASET_READ_FAILED"
  | datasetInvalid => "DATASET_INVALID"
  | datasetWriteFailed => "DATASET_WRITE_FAILED"
  | datasetReadBackFailed => "DATASET_READ_BACK_FAILED"
  | grossIncomeUnparseable => "NORMALIZER_GROSS_INCOME_UNPARSEABLE"
  | coercionFailed => "NORMALIZER_COERCION_FAILED"
  | membershipRebuildFailed => "NORMALIZER_MEMBERSHIP_REBUILD_FAILED"
  | standardizationFailed => "NORMALIZER_STANDARDIZATION_FAILED"
  | lineageFailed => "NORMALIZER_LINEAGE_FAILED"
  | optionsInvalid => "NORMALIZER_OPTIONS_INVALID"
  | queryUnknown => "QUERY_UNKNOWN"
  | queryParamsInvalid => "QUERY_PARAMS_INVALID"
  | queryFailed => "QUERY_FAILED"
  | queryRowInvalid => "QUERY_ROW_INVALID"
  | exportInvalidInput => "REPORT_EXPORT_INVALID_INPUT"
  | exportDirCreateFailed => "REPORT_EXPORT_DIR_CREATE_FAILED"
  | exportWriteFailed => "REPORT_EXPORT_WRITE_FAILED"
  | exportInvalidOutput => "REPORT_EXPORT_INVALID_OUTPUT"
  | unlisted name => name

/-- The codes of the catalogue, in its order. -/
def listed : List Code :=
  [configInvalid, cliArgsInvalid, dbOpenFailed, dbCloseFailed, dbTransactionFailed,
   dbMigrationFailed, datasetReadFailed, datasetInvalid, datasetWriteFailed,
   datasetReadBackFailed, grossIncomeUnparseable, coercionFailed, membershipRebuildFailed,
   standardizationFailed, lineageFailed, optionsInvalid, queryUnknown, queryParamsInvalid,
   queryFailed, queryRowInvalid, exportInvalidInput, exportDirCreateFailed, exportWriteFailed,
   exportInvalidOutput]

def ofText (s : String) : Code :=
  (listed.find? fun x => x.text = s).getD (unlisted s)

end Code
end Fault

/-- A failure reported as a value. -/
structure Fault where
  code : Fault.Code
  message : String
  severity : Fault.Severity
  context : Fields
  cause : Option String
deriving Repr

namespace Fault

/-- A fault of severity `error` without a cause. -/
def create (code : Code) (message : String) (context : Fields) : Fault :=
  ⟨code, message, .error, context, none⟩

/-- A fault of severity `error` with the message of its cause. -/
def ofCause (code : Code) (message : String) (context : Fields) (cause : String) : Fault :=
  ⟨code, message, .error, context, some cause⟩

/-- A fault that ends the program, without a cause. -/
def fatal (code : Code) (message : String) (context : Fields) : Fault :=
  ⟨code, message, .fatal, context, none⟩

/-- A fault that only warns, without a cause. -/
def warning (code : Code) (message : String) (context : Fields) : Fault :=
  ⟨code, message, .warning, context, none⟩

/-- The fault as it is written out at the time `stamp`. -/
def toJson (stamp : String) (f : Fault) : Json :=
  .object <|
    [("code", .string f.code.text), ("message", .string f.message),
     ("severity", .string f.severity.text), ("context", .object f.context),
     ("timestamp", .string stamp)] ++
    match f.cause with
    | some cause => [("cause", .string cause)]
    | none => []

/-- The fault on one line. -/
def headline (f : Fault) : String :=
  "[" ++ Text.upper f.severity.text ++ "] " ++ f.code.text ++ ": " ++ f.message

end Fault

end FilmReport
