import FilmReport.Normalize.Split
import FilmReport.Journal.Basic
import FilmReport.Text.Numeral
import FilmReport.Text.Path

/-!
Settings of a run, read from environment variables. A variable counts only when something is left
of it after white space is stripped from its ends; paths are taken from the working directory.
-/

set_option autoImplicit false
set_option relaxedAutoImplicit false

namespace FilmReport

open Shape

structure Settings where
  dbPath : String
  datasetPath : Option String
  exportDir : String
  logLevel : Journal.Level
  membership : Normalize.SplitOptions
deriving Repr

namespace Settings

/-- The name that stands for a database in memory. -/
def memoryPath : String := ":memory:"

def toJson (s : Settings) : Json :=
  .object
    [("dbPath", .string s.dbPath), ("datasetPath", Json.ofOption .string s.datasetPath),
     ("exportDir", .string s.exportDir), ("logLevel", .string s.logLevel.text),
     ("membership", .object s.membership.fields)]

/-- The names of the variables. -/
def variableNames : List String :=
  ["REELSTATS_DB_PATH", "REELSTATS_DATASET_PATH", "REELSTATS_EXPORT_DIR", "REELSTATS_LOG_LEVEL",
   "REELSTATS_MEMBERSHIP_TOKEN_LIMIT", "REELSTATS_EMIT_BLANK_TOKENS"]

/-- Environment variables by name. -/
abbrev Environment := List (String × String)

/-- The stripped text of a variable, unless nothing is left of it. -/
def cleaned? (env : Environment) (name : String) : Option String :=
  match env.find? fun v => v.1 = name with
  | some (_, raw) =>
    let value := Text.trimSpace raw
    if value = "" then none else some value
  | none => none

/-- A variable, or a value for its absence. -/
def withDefault {α : Type} (absent : α) (check : Option Json → Checked α)
    (field : Option Json) : Checked α :=
  match field with
  | none => .valid absent
  | some v => check (some v)

/-- The number that a text writes. -/
def numeral : Option Json → Option Json
  | some (.string s) => some (.number (Numeral.read s))
  | field => field

/-- A switch, with the words that turn it on and off. -/
def switch : Option Json → Checked Bool :=
  fun field =>
    Prod.snd <$> option [("true", true), ("1", true), ("false", false), ("0", false)] Prod.fst
      ["0", "1", "true", "false"] field

def level : Option Json → Checked Journal.Level :=
  option Journal.Level.listed Journal.Level.text (Journal.Level.listed.map Journal.Level.text)

/-- The checks of all variables; paths are not resolved yet. -/
def check (env : Environment) : Checked Settings :=
  let read (name : String) : Option Json := (cleaned? env name).map .string
  (fun dbPath datasetPath exportDir weight (limit : Int) blank =>
      ⟨dbPath, datasetPath, exportDir, weight, ⟨.finite limit, blank⟩⟩)
    <$> at_ "REELSTATS_DB_PATH" (withDefault memoryPath (text 1)) read
    <*> at_ "REELSTATS_DATASET_PATH" (optional (text 1)) read
    <*> at_ "REELSTATS_EXPORT_DIR" (withDefault "exports/queries" (text 1)) read
    <*> at_ "REELSTATS_LOG_LEVEL" (withDefault .info level) read
    <*> at_ "REELSTATS_MEMBERSHIP_TOKEN_LIMIT"
      (withDefault 3 fun field => integer (.between 1 32) (numeral field)) read
    <*> at_ "REELSTATS_EMIT_BLANK_TOKENS" (withDefault true switch) read

/-- A path taken from the working directory, unless it is absolute or stands for memory. -/
def place (cwd path : String) : String :=
  if path = memoryPath || Path.isAbsolute path then path else Path.resolve cwd path

/-- The settings in an environment, for a working directory. -/
def load (env : Environment) (cwd : String) : Except Fault Settings :=
  match (check env).toExcept with
  | .ok s =>
    .ok
      { s with
        dbPath := place cwd s.dbPath
        datasetPath := s.datasetPath.map (place cwd)
        exportDir := place cwd s.exportDir }
  | .error issues =>
    .error <| .fatal .configInvalid "Environment configuration is invalid."
      [("issues", .array (issues.map Issue.toJson))]

end Settings
end FilmReport
