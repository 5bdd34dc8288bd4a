import FilmReport.Report.Csv
import FilmReport.Report.Summary
import FilmReport.Query.Execution
import FilmReport.Query.Catalog
import FilmReport.Json.Printer

/-!
Export of a report. All queries are run and written to a directory of their own: a table for each
query, all results in one file, and last a manifest that says what became of each query.
-/

set_option autoImplicit false
set_option relaxedAutoImplicit false

namespace FilmReport.Report

open Shape Query

/-- The forms in which results are written. -/
inductive Format where
  | csv
  | json
deriving DecidableEq, Repr

namespace Format

def text : Format → String
  | csv => "csv"
  | json => "json"

def listed : List Format := [csv, json]

def check : Option Json → Checked Format :=
  option listed text (listed.map text)

end Format

/-- What an export is asked for: a directory and forms. -/
structure Request where
  exportDir : String
  formats : List Format
deriving Repr

/-- The forms of a request; all of them if it names none. -/
def checkFormats (field : Option Json) : Checked (List Format) :=
  match field with
  | none => .valid Format.listed
  | some v => list 1 Format.check (some v)

def Request.check (exportDir : String) (formats : Option Json) : Checked Request :=
  Request.mk <$> (text 1 (some (.string exportDir))).within (.field "exportDir")
    <*> (checkFormats formats).within (.field "formats")

def Request.read (exportDir : String) (formats : Option Json) : Except Fault Request :=
  match (Request.check exportDir formats).toExcept with
  | .ok r => .ok { r with formats := r.formats.eraseDups }
  | .error issues =>
    .error <| .create .exportInvalidInput "Report export parameters are invalid."
      [("issues", .array (issues.map Issue.toJson))]

/-- A finished batch of queries, ready to be written. -/
structure Batch where
  generatedAt : String
  params : Params
  formats : List Format
  outcomes : List Runner.Outcome

namespace Batch

/-- A time as a part of a file name. -/
def fileStamp (time : String) : String :=
  String.ofList (time.toList.map fun c => if c = ':' ∨ c = '.' then '-' else c)

/-- The name of the directory of a report. -/
def directoryName (generatedAt : String) : String :=
  "queries-" ++ fileStamp generatedAt

/-- The table of a query, or why there is none. -/
def table (o : Runner.Outcome) : String :=
  match o.result with
  | .ok result => Csv.ofResult result
  | .error f => Csv.ofError (f.cause.getD f.message) o.definition.statement.text

def tableName (o : Runner.Outcome) : String :=
  o.definition.id ++ ".csv"

/-- All results. -/
def results (b : Batch) : Json :=
  .object
    [("generatedAt", .string b.generatedAt), ("params", .object b.params.fields),
     ("results", .array (b.outcomes.filterMap fun o => o.result.toOption.map Result.toJson))]

/-- What became of a query. -/
def entry (stamp : String) (tables : Bool) (o : Runner.Outcome) : Json :=
  let (status, rowCount, error) : String × Json × Json :=
    match o.result with
    | .ok result => ("ok", .ofNat result.rows.length, .null)
    | .error f => ("failed", .null, f.toJson stamp)
  .object
    [("id", .string o.definition.id), ("segment", .ofNat o.definition.segment),
     ("label", .string o.definition.label), ("status", .string status), ("rowCount", rowCount),
     ("file", if tables then .string (tableName o) else .null), ("error", error)]

def manifest (stamp : String) (b : Batch) : Json :=
  .object
    [("generatedAt", .string b.generatedAt), ("params", .object b.params.fields),
     ("formats", .strings (b.formats.map Format.text)),
     ("queries", .array (b.outcomes.map (entry stamp (b.formats.contains .csv))))]

/-- The files of a report with their contents, in the order in which they are written. -/
def files (stamp : String) (b : Batch) : List (String × String) :=
  (if b.formats.contains .csv then b.outcomes.map fun o => (tableName o, table o) else []) ++
  (if b.formats.contains .json then [("results.json", b.results.pretty)] else []) ++
  [("manifest.json", (b.manifest stamp).pretty)]

/-- The number of queries that failed. -/
def failed (b : Batch) : Nat :=
  b.outcomes.countP Runner.Outcome.failed

end Batch

/-- Makes the directory of a report. -/
def makeDirectory (path : String) : Act Unit := do
  let w ← get
  let (result, files) := w.files.makeDirectory path
  set { w with files := files }
  match result with
  | .ok () => pure ()
  | .error cause =>
    Act.report <| .ofCause .exportDirCreateFailed "Could not prepare the report export directory."
      [("reportDir", .string path)] cause

/-- Writes one file of a report. -/
def writeFile (directory : String) (name content : String) : Act ExportedFile := do
  let path := Path.join directory name
  let w ← get
  match w.files.write path content with
  | .ok files => do
    set { w with files := files }
    pure ⟨name, path, Text.byteSize content⟩
  | .error cause =>
    Act.report <| .ofCause .exportWriteFailed "Could not write the report file."
      [("filePath", .string path)] cause

/-- Runs all queries and writes their results under a directory. -/
def write (logger : Journal.Logger) (exportDir : String) (formats : Option Json)
    (given : Fields) : Act Summary := do
  let request ← Act.ofExcept (Request.read exportDir formats)
  let params ← Act.ofExcept (Params.resolve given)
  let logger := logger.withContext [("component", .string "query-report")]
  let (outcomes, _) ← (Runner.make logger catalog).runWith params
  let generatedAt ← Act.readClock
  let w ← get
  let reportDir :=
    Path.join (Path.resolve w.directory request.exportDir) (Batch.directoryName generatedAt)
  makeDirectory reportDir
  let batch : Batch := ⟨generatedAt, params, request.formats, outcomes⟩
  let files ← (batch.files w.stamp).mapM fun (name, content) => writeFile reportDir name content
  Act.log logger .info "query report exported"
    [("reportDir", .string reportDir), ("files", .ofNat files.length),
     ("failed", .ofNat batch.failed)]
  let summary : Summary :=
    ⟨generatedAt, reportDir, files, (outcomes.length : Int) - batch.failed, batch.failed⟩
  match (Summary.check (some summary.toJson)).toExcept with
  | .ok summary => pure summary
  | .error issues =>
    Act.report <| .create .exportInvalidOutput "Report export result has an invalid format."
      [("issues", .array (issues.map Issue.details))]

end FilmReport.Report
