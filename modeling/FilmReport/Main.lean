import FilmReport.Command.Disk
import Std.Time.DateTime.Timestamp

/-!
The command line. It looks at the disk, lets `Command.run` do the work, prints the journal, one
entry a line, and writes back what the run changed.
-/

set_option autoImplicit false
set_option relaxedAutoImplicit false

namespace FilmReport.Command

/-- The time of day, written out. -/
def timeOfDay : IO String := do
  let now ← Std.Time.Timestamp.now
  pure (Calendar.Instant.mk now.toMillisecondsSinceUnixEpoch.val).toText

/-- The variables that are set. -/
def environment : IO Settings.Environment :=
  Settings.variableNames.filterMapM fun name => do
    pure ((← IO.getEnv name).map fun value => (name, value))

/-- What stands at a path; nothing if it cannot be read. -/
def lookAt (path : String) : IO (Option (String × Found)) := do
  let file := (← IO.currentDir) / path
  if ← file.isDir then pure (some (path, .directory))
  else if ← file.pathExists then
    try
      pure (some (path, .text (← IO.FS.readFile file)))
    catch _ => pure none
  else pure none

/-- Puts something at a path. -/
def writeTo (path : String) : Found → IO Unit
  | .directory => do
    IO.FS.createDirAll ((← IO.currentDir) / path)
  | .text content => do
    IO.FS.writeFile ((← IO.currentDir) / path) content

/-- A run on the disk; answers its exit code. -/
def start (argv : List String) : IO UInt32 := do
  let directory := (← IO.currentDir).toString
  let stamp ← timeOfDay
  let env ← environment
  let found ← (reachable directory stamp env argv).filterMapM lookAt
  let before := hostOf directory stamp found
  let (ending, after) := run before env argv
  ending.journal.forM fun entry => IO.println entry.toJson.compact
  (changes before after).forM fun entry => writeTo entry.1 entry.2
  pure (UInt32.ofNat ending.exitCode)

end FilmReport.Command

def main (argv : List String) : IO UInt32 :=
  FilmReport.Command.start argv
