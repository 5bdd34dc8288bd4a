import FilmReport.Store.Error
import FilmReport.Fault.Basic
import FilmReport.Session.Files
import FilmReport.Session.Database
import FilmReport.Journal.Basic
import FilmReport.Calendar.Instant

/-!
Actions: what the library does with a session, the files, the clock and the journal. An action
answers a value or fails, and in both cases leaves a world. One that fails either reports a fault,
which is an answer, or raises a cause, which whoever called it may turn into a fault.
-/

set_option autoImplicit false
set_option relaxedAutoImplicit false

namespace FilmReport

open Calendar (Instant)

/-- What an action can raise. -/
inductive Cause where
  | store (error : StoreError)
  /-- A reading of the clock that is no instant. -/
  | noInstant
  /-- A thrown value without words. -/
  | noWords
  /-- A field of something that has none. -/
  | noField (owner field : String)
  /-- A call of something that is no function. -/
  | noFunction (expression : String)
  | other (message : String)
deriving DecidableEq, Repr

def Cause.message : Cause → String
  | store error => error.message
  | noInstant => "Invalid time value"
  | noWords => "Cannot convert object to primitive value"
  | noField owner field => "Cannot read properties of " ++ owner ++ " (reading '" ++ field ++ "')"
  | noFunction expression => expression ++ " is not a function"
  | other message => message

/-- Why an action has no value. -/
inductive Failure where
  | fault (fault : Fault)
  | raised (cause : Cause)
deriving Repr

/-- All that an action can reach. -/
structure World where
  session : Session
  database : Database
  files : Files
  /-- The directory from which relative paths are taken. -/
  directory : String
  /-- The readings that the clock has yet to give; the last one stays. -/
  clock : List (Option Instant)
  /-- The time written into faults and journal entries. -/
  stamp : String
  journal : List Journal.Entry

/-- An action with a value of type `α`. -/
abbrev Act (α : Type) := ExceptT Failure (StateM World) α

namespace Act

variable {α : Type}

def raise (error : StoreError) : Act α :=
  throw (.raised (.store error))

def report (fault : Fault) : Act α :=
  throw (.fault fault)

/-- The value of an answer, or its fault. -/
def ofExcept : Except Fault α → Act α
  | .ok a => pure a
  | .error fault => report fault

/-- The value of a check of the store, or its error. -/
def ofStore : Except StoreError α → Act α
  | .ok a => pure a
  | .error e => raise e

/-- The outcome of an action as a value. -/
def outcome (act : Act α) : Act (Except Failure α) :=
  fun w =>
    let (result, w) := act w
    (.ok result, w)

/-- An action whose raised causes are reported as faults. -/
def reporting (fault : String → Fault) (act : Act α) : Act α := do
  match ← act.outcome with
  | .ok a => pure a
  | .error (.fault f) => report f
  | .error (.raised cause) => report (fault cause.message)

/-- The next reading of the clock, written out. -/
def readClock : Act String := do
  let w ← get
  match w.clock with
  | [] => throw (.raised .noInstant)
  | reading :: rest =>
    if rest.isEmpty then pure () else set { w with clock := rest }
    match reading with
    | some t => pure t.toText
    | none => throw (.raised .noInstant)

/-- Writes an entry to the journal, if the logger does. -/
def log (logger : Journal.Logger) (level : Journal.Level) (message : String) (context : Fields) :
    Act Unit :=
  modify fun w =>
    match logger.entry? w.stamp level message context with
    | some entry => { w with journal := w.journal ++ [entry] }
    | none => w

end Act
end FilmReport
