import FilmReport.Command.Arguments
import FilmReport.Settings
import FilmReport.Migration
import FilmReport.Normalize.Run
import FilmReport.Dataset.Seed
import FilmReport.Session.Host
import FilmReport.Calendar.Reading

/-!
A run of the program: the database is opened and brought up to date, the dataset is loaded and
normalized unless that is to be skipped, and the report is written. The first failure ends the run.
-/

set_option autoImplicit false
set_option relaxedAutoImplicit false

namespace FilmReport.Command

open Journal (Logger Level)

/-- The context of the entry for a fault. -/
def faultContext (f : Fault) : Fields :=
  [("code", .string f.code.text), ("context", .object f.context)] ++
    match f.cause with
    | some cause => [("cause", .string cause)]
    | none => []

/-- The level of the entry for a fault. -/
def faultLevel (f : Fault) : Level :=
  if f.severity = .fatal then .fatal else .error

/-- Loads a dataset and normalizes it. -/
def setUp (logger : Logger) (settings : Settings) (dataset : Option String) : Act Unit :=
  match dataset with
  | none =>
    Act.report <| .create .cliArgsInvalid
      "A dataset path is required unless --skip-setup is given."
      [("option", .string "--dataset")]
  | some path => do
    let w ← get
    let dataset ←
      Act.ofExcept (Dataset.load path (w.files.read w.directory path))
    let counts ← Dataset.seed dataset
    Act.log logger .info "dataset loaded" (("datasetPath", .string path) :: counts)
    let _ ← Normalize.run logger settings.membership.fields

/-- The work of a run in its session. -/
def work (logger : Logger) (settings : Settings) (args : Arguments) : Act Unit := do
  let migrated ← Migration.run
  Act.log logger .info "migrations applied" [("applied", .strings migrated.now)]
  if args.skipSetup then pure ()
  else setUp logger settings (args.dataset.or settings.datasetPath)
  let summary ← Report.write logger (args.exportDir.getD settings.exportDir)
    (some (.strings (args.formats.map Report.Format.text))) []
  Act.log logger .info "report ready"
    [("exportDir", .string summary.exportDir), ("succeeded", .ofInt summary.succeeded),
     ("failed", .ofInt summary.failed)]

/-- How a run ended: its exit code and what it wrote to the journal. -/
structure Ending where
  exitCode : Nat
  journal : List Journal.Entry
deriving Repr

/-- The ending of a run that failed with a fault. -/
def Ending.ofFault (stamp : String) (logger : Logger) (journal : List Journal.Entry) (f : Fault) :
    Ending :=
  ⟨1, journal ++ (logger.entry? stamp (faultLevel f) f.message (faultContext f)).toList⟩

/-- A run with an open session. -/
def runIn (h : Host) (logger : Logger) (settings : Settings) (args : Arguments) (n : Nat) :
    Ending × Host :=
  match h.session? n with
  | none => (⟨1, []⟩, h)
  | some s =>
    let clock := [Calendar.Instant.parse? h.stamp]
    let ((result, journal), h) := h.run s clock (work logger settings args)
    let ((closed, _), h) := h.run ((h.session? n).getD s) clock (Act.close false)
    match result, closed with
    | .ok _, .ok _ => (⟨0, journal⟩, h)
    | .error (.fault f), _ => (.ofFault h.stamp logger journal f, h)
    | .ok _, .error (.fault f) => (.ofFault h.stamp logger journal f, h)
    | _, _ => (⟨1, journal⟩, h)

/-- A run with an environment and arguments. -/
def run (h : Host) (env : Settings.Environment) (argv : List String) : Ending × Host :=
  match Settings.load env h.directory with
  | .error f => (.ofFault h.stamp (.above .debug []) [] f, h)
  | .ok settings =>
    let logger := Logger.above settings.logLevel [("app", .string "reelstats")]
    match Arguments.read argv with
    | .error f => (.ofFault h.stamp logger [] f, h)
    | .ok args =>
      let request : OpenRequest :=
        ⟨args.db.getD settings.dbPath, .bool false, .bool false, .ofNat 5000⟩
      match h.openSession request with
      | (.error f, h) => (.ofFault h.stamp logger [] f, h)
      | (.ok n, h) => runIn h logger settings args n

end FilmReport.Command
