import FilmReport.Store.Table
import FilmReport.Store.Error

/-!
Databases and sessions. A database is what was committed last, with the number of commits so far and
the session that holds the right to write. A session works on it directly or within a transaction,
which has its own view of the data from its first look on.
-/

set_option autoImplicit false
set_option relaxedAutoImplicit false

namespace FilmReport

/-- A database as all its sessions share it. -/
structure Database where
  store : Store
  version : Nat
  /-- The session in whose transaction rows are being written. -/
  writer : Option Nat
  /-- Whether commits go to a journal, which begins with the first writable session. -/
  journaled : Bool
  /-- Whether the files of the journal are there. -/
  hasJournal : Bool
  /-- The version that the file of the database holds; the journal has the commits since. -/
  filed : Nat

def Database.empty : Database := ⟨.empty, 0, none, false, false, 0⟩

instance : Inhabited Database := ⟨Database.empty⟩

/-- The database after one more commit. -/
def Database.committed (d : Database) (data : Store) : Database :=
  { d with store := data, version := d.version + 1 }

/-- The data of a transaction: the commit it began from, what that left, and its own state. -/
structure View where
  version : Nat
  base : Store
  working : Store
  /-- Whether anything was written; then the commit is a new version, changed or not. -/
  wrote : Bool

/-- An open transaction. -/
structure Transaction where
  view : Option View
  /-- The data at each savepoint, newest first; none where nothing had been looked at. -/
  savepoints : List (Option Store)

/-- Where the database of a session is kept. -/
inductive Place where
  | memory
  | temporary
  | file (path : String)
deriving DecidableEq, Repr

/-- A session with a database. -/
structure Session where
  number : Nat
  /-- The number of its database. -/
  database : Nat
  /-- The file name with which the session was opened. -/
  name : String
  place : Place
  readonly : Bool
  /-- Whether the file holds a database; if it does not, no statement on its tables can be ready. -/
  isReadable : Bool
  timeout : Int
  isOpen : Bool
  /-- Whether the session made its transaction statements ready. -/
  prepared : Bool
  transaction : Option Transaction

namespace Session

def inTransaction (s : Session) : Bool :=
  s.isOpen && s.transaction.isSome

/-- The data that the statements of a session work on. -/
def data (s : Session) (d : Database) : Store :=
  match s.transaction.bind (·.view) with
  | some view => view.working
  | none => d.store

/-- Whether another session holds the right to write. -/
def isLockedOut (s : Session) (d : Database) : Bool :=
  match d.writer with
  | some n => n ≠ s.number
  | none => false

/-- Whether the session's view is not of the last commit. -/
def isStale (s : Session) (d : Database) : Bool :=
  match s.transaction.bind (·.view) with
  | some view => view.version ≠ d.version
  | none => false

/-- Whether the session holds the right to write. -/
def writes (s : Session) (d : Database) : Bool :=
  d.writer = some s.number

/-- The session with its view taken, if it is in a transaction that has none yet. -/
def looked (s : Session) (d : Database) : Session :=
  match s.transaction with
  | some t =>
    match t.view with
    | some _ => s
    | none =>
      let view : View := ⟨d.version, d.store, d.store, false⟩
      { s with transaction := some { t with view := some view } }
  | none => s

end Session
end FilmReport
