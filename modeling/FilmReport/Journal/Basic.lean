import FilmReport.Json.Basic

/-!
The journal of a run. A logger has a threshold and a context of its own; an entry below the
threshold is not written, and the context of an entry is put over that of its logger.
-/

set_option autoImplicit false
set_option relaxedAutoImplicit false

namespace FilmReport.Journal

/-- The weight of an entry; `unlisted` keeps a word that is none of the five. -/
inductive Level where
  | debug | info | warning | error | fatal
  | unlisted (name : String)
deriving DecidableEq, Repr

namespace Level

def text : Level → String
  | debug => "debug"
  | info => "info"
  | warning => "warning"
  | error => "error"
  | fatal => "fatal"
  | unlisted name => name

/-- The five levels, lightest first. -/
def listed : List Level := [debug, info, warning, error, fatal]

def ofText (s : String) : Level :=
  (listed.find? fun x => x.text = s).getD (unlisted s)

/-- The place of a level among the five; a word that is none of them stands below all. -/
def rank : Level → Nat
  | unlisted _ => 0
  | debug => 1
  | info => 2
  | warning => 3
  | error => 4
  | fatal => 5

end Level

/-- A written entry. -/
structure Entry where
  timestamp : String
  level : Level
  message : String
  context : Fields
deriving Repr

def Entry.toJson (e : Entry) : Json :=
  .object
    [("timestamp", .string e.timestamp), ("level", .string e.level.text),
     ("message", .string e.message), ("context", .object e.context)]

/-- A logger; a silent one writes nothing. -/
structure Logger where
  silent : Bool
  threshold : Level
  context : Fields
deriving Repr

namespace Logger

/-- The logger for callers that give none. -/
def quiet : Logger := ⟨true, .debug, []⟩

/-- A logger that writes from `threshold` upward. -/
def above (threshold : Level) (context : Fields) : Logger :=
  ⟨false, threshold, context⟩

/-- The logger with more context. -/
def withContext (more : Fields) (logger : Logger) : Logger :=
  { logger with context := logger.context.merge more }

/-- The entry that a call at the time `stamp` writes, if it writes one. -/
def entry? (logger : Logger) (stamp : String) (level : Level) (message : String)
    (context : Fields) : Option Entry :=
  if logger.silent || level.rank < logger.threshold.rank then none
  else some ⟨stamp, level, message, logger.context.merge context⟩

end Logger
end FilmReport.Journal
