import FilmReport.Query.Definition
import FilmReport.Session.Access

/-!
Execution of queries. A runner keeps each statement that it made ready under the identifier of its
definition, and goes on with the others when one query fails.
-/

set_option autoImplicit false
set_option relaxedAutoImplicit false

namespace FilmReport.Query

open Shape

/-- What runs the queries of a list. -/
structure Runner where
  logger : Journal.Logger
  definitions : List Definition
  /-- The statements made ready so far. -/
  statements : List (String × Statement)

/-- The name under which runners write to the journal. -/
def Runner.make (logger : Journal.Logger) (definitions : List Definition) : Runner :=
  ⟨logger.withContext [("component", .string "analytics-queries")], definitions, []⟩

/-- The value that a report prints for a datum. -/
def Datum.check : Datum → Checked Value
  | .cell .null => .valid .null
  | .cell (.text s) => .valid (.text s)
  | .cell (.int n) => .valid (.number (.ofInt n))
  | .cell (.real (.finite q)) => .valid (.number (.finite q))
  | .cell (.real _) =>
    .stop (.noKind
      [.wrongKind "string" "number" false, .wrongKind "number" "number" true,
       .wrongKind "null" "number" false])
  | .blob =>
    .stop (.noKind
      [.wrongKind "string" "Buffer" false, .wrongKind "number" "Buffer" false,
       .wrongKind "null" "Buffer" false])

/-- The values of a row under the names of its columns. -/
def checkRow : List (String × Datum) → Checked Row
  | [] => .valid []
  | (name, datum) :: rest =>
    .and ((datum.check.within (.field name)).map fun value row => (name, value) :: row)
      fun _ => checkRow rest

/-- The rows from the index `n` on, or the fault of the first that cannot be printed. -/
def checkRows (id : String) (columns : List String) :
    Nat → List (List Datum) → Except Fault (List Row)
  | _, [] => .ok []
  | n, data :: rest =>
    match (checkRow (columns.zip data)).toExcept with
    | .ok row => (checkRows id columns (n + 1) rest).map (row :: ·)
    | .error issues =>
      .error <| .create .queryRowInvalid "Query returned a value that cannot be exported."
        [("queryId", .string id), ("rowIndex", .ofNat n),
         ("issues", .array (issues.map Issue.details))]

/-- The parameters that a statement uses are among those that it is handed. -/
def bindParams (handed bound : List Param) : Except StoreError Unit :=
  if handed.isEmpty then
    if bound.isEmpty then .ok () else .error .missingParameters
  else
    match bound.find? fun p => !handed.contains p with
    | some p => .error (.missingParameter p.text)
    | none => .ok ()

/-- The rows of a statement that is handed the parameters of a definition. -/
def Statement.run (st : Statement) (d : Definition) (p : Params) : Act (List (List Datum)) := do
  if st.answers then pure () else Act.raise .notReader
  Act.requireOpen
  Act.ofStore (bindParams d.parameters st.bound)
  Act.look fun s => do
    st.prepare s
    pure (st.rows p s)

namespace Runner

/-- The statement kept under the identifier of a definition. -/
def kept? (r : Runner) (d : Definition) : Option Statement :=
  (r.statements.find? fun entry => entry.1 = d.id).map Prod.snd

/-- The statement of a definition, made ready unless one is kept. -/
def ready (r : Runner) (d : Definition) : Act Statement :=
  match r.kept? d with
  | some st => pure st
  | none => do
    Act.peek d.statement.prepare
    pure d.statement

/-- The runner with a statement kept. -/
def keep (r : Runner) (d : Definition) (st : Statement) : Runner :=
  match r.kept? d with
  | some _ => r
  | none => { r with statements := (d.id, st) :: r.statements }

/-- The result of a ready statement. -/
def answer (r : Runner) (d : Definition) (st : Statement) (p : Params) : Act Result := do
  let data ← st.run d p
  let rows ← Act.ofExcept (checkRows d.id st.columns 0 data)
  Act.log r.logger .debug "query executed"
    [("queryId", .string d.id), ("rows", .ofNat rows.length), ("durationMs", .ofNat 0)]
  pure ⟨d.id, d.segment, d.label, st.columns, rows⟩

/-- The fault of a query in which something was raised. -/
def queryFault (d : Definition) (cause : String) : Fault :=
  .ofCause .queryFailed "Analytical query failed."
    [("queryId", .string d.id), ("label", .string d.label)] cause

/-- The fault of a failure of a query. -/
def faultOf (d : Definition) : Failure → Fault
  | .fault f => f
  | .raised cause => queryFault d cause.message

/-- The result of a definition, or its fault, and the runner after it. -/
def execute (r : Runner) (d : Definition) (p : Params) : Act (Except Fault Result × Runner) := do
  match ← (r.ready d).outcome with
  | .error failure => pure (.error (faultOf d failure), r)
  | .ok st =>
    match ← (r.answer d st p).outcome with
    | .ok result => pure (.ok result, r.keep d st)
    | .error failure => pure (.error (faultOf d failure), r.keep d st)

/-- The definition with an identifier; of several the last. -/
def find? (r : Runner) : Option Json → Option Definition
  | some (.string id) => r.definitions.reverse.find? fun d => d.id = id
  | _ => none

/-- Runs the query with an identifier; no query is asked for by anything but a text. -/
def runQuery (r : Runner) (id : Option Json) (given : Fields) :
    Act (Except Fault Result × Runner) :=
  match r.find? id with
  | none =>
    pure (.error (.create .queryUnknown "No analytical query with this id."
      (Fields.ofOption "queryId" id)), r)
  | some d =>
    match Params.resolve given with
    | .ok p => r.execute d p
    | .error f => pure (.error f, r)

/-- What became of a query. -/
structure Outcome where
  definition : Definition
  result : Except Fault Result

def Outcome.failed (o : Outcome) : Bool :=
  match o.result with
  | .ok _ => false
  | .error _ => true

/-- A field with a cause, if there is one. -/
def causeField (f : Fault) : Fields :=
  match f.cause with
  | some cause => [("cause", .string cause)]
  | none => []

/-- Runs definitions one after the other. -/
def executeAll (p : Params) : Runner → List Definition → Act (List Outcome × Runner)
  | r, [] => pure ([], r)
  | r, d :: rest => do
    let (result, r) ← r.execute d p
    match result with
    | .ok _ => pure ()
    | .error f =>
      Act.log r.logger .warning "query failed"
        ([("queryId", .string d.id), ("code", .string f.code.text)] ++ causeField f)
    let (outcomes, r) ← executeAll p r rest
    pure (⟨d, result⟩ :: outcomes, r)

/-- Runs all definitions with the given parameters. -/
def runWith (r : Runner) (p : Params) : Act (List Outcome × Runner) := do
  let (outcomes, r) ← executeAll p r r.definitions
  Act.log r.logger .info "query batch finished"
    [("total", .ofNat outcomes.length), ("failed", .ofNat (outcomes.countP Outcome.failed))]
  pure (outcomes, r)

/-- Runs all definitions with the parameters that the given fields ask for. -/
def runAll (r : Runner) (given : Fields) : Act (Except Fault (List Outcome) × Runner) :=
  match Params.resolve given with
  | .error f => pure (.error f, r)
  | .ok p => do
    let (outcomes, r) ← r.runWith p
    pure (.ok outcomes, r)

end Runner
end FilmReport.Query
