import FilmReport.Command.Run
import FilmReport.Store.Snapshot
import FilmReport.Json.Parser

/-!
A disk around a run. `reachable` names the paths that a run may look at, `hostOf` is the host made
of what was found there, and `changes` is what has to be written back. A file that holds a snapshot
of a store is a database.
-/

set_option autoImplicit false
set_option relaxedAutoImplicit false

namespace FilmReport.Command

/-- What stands at a path of a disk. -/
inductive Found where
  | directory
  | text (content : String)
deriving DecidableEq, Repr

/-- The names of all files that a report can have. -/
def reportFiles : List String :=
  Query.catalog.map (fun d => d.id ++ ".csv") ++ ["results.json", "manifest.json"]

/-- A path and those of the directories above it. -/
def lineage (path : String) : List String :=
  path :: Path.ancestors path

/-- The absolute paths that a path leads through from a directory. -/
def stations (directory path : String) : List String :=
  let names := Path.segments path
  (List.range names.length).map fun k =>
    Path.resolve directory ("/".intercalate (names.take (k + 1)))

/-- The paths of the files that a run with settings and arguments may look at. -/
def filesOf (directory stamp : String) (settings : Settings) (args : Arguments) : List String :=
  let database := Text.trimSpace (args.db.getD settings.dbPath)
  let named := if database = Settings.memoryPath then [] else [database]
  let exportDir := Path.resolve directory (args.exportDir.getD settings.exportDir)
  let reportDir := Path.join exportDir (Report.Batch.directoryName stamp)
  (named ++ (args.dataset.or settings.datasetPath).toList).flatMap (stations directory) ++
    reportDir :: reportFiles.map (Path.join reportDir)

/-- The paths that a run may look at. -/
def reachable (directory stamp : String) (env : Settings.Environment) (argv : List String) :
    List String :=
  match Settings.load env directory, Arguments.read argv with
  | .ok settings, .ok args =>
    ((filesOf directory stamp settings args).flatMap lineage).eraseDups
  | _, _ => []

/-- The host with what was found at a path. -/
def placeFound (h : Host) (path : String) : Found → Host
  | .directory => { h with files := h.files.put path .directory }
  | .text content =>
    match (Json.parse? content).bind Store.ofSnapshot? with
    | some store =>
      { h with
        files := h.files.put path (.database h.next)
        databases := (h.next, { Database.empty with store := store }) :: h.databases
        next := h.next + 1 }
    | none => { h with files := h.files.put path (.text content) }

/-- The host made of what was found at paths. -/
def hostOf (directory stamp : String) (found : List (String × Found)) : Host :=
  found.foldl (fun h entry => placeFound h entry.1 entry.2) ⟨[], directory, [], [], 0, stamp⟩

/-- What an entry of a host is on a disk. -/
def asFound (h : Host) : Entry → Found
  | .directory => .directory
  | .text content => .text content
  | .database number => .text (h.database number).store.snapshot.compact

/-- What is on a disk after a run and was not before, each directory before what it holds. -/
def changes (before after : Host) : List (String × Found) :=
  (after.files.map fun entry => (entry.1, asFound after entry.2)).filter fun entry =>
    (before.files.get? entry.1).map (asFound before) ≠ some entry.2

end FilmReport.Command
