import FilmReport.Session.World
import FilmReport.Store.Effect

/-!
Statements of a session. Outside a transaction a write is committed at once. Inside one the first
look fixes what is seen until the end; a write needs that view to be the last commit, and no other
session to be writing. A commit in which nothing was written leaves the last commit what it was.
-/

set_option autoImplicit false
set_option relaxedAutoImplicit false

namespace FilmReport.Act

variable {α : Type}

/-- Goes on only with an open session. -/
def requireOpen : Act Unit := do
  if (← get).session.isOpen then pure () else raise .notOpen

/-- Goes on only with an open session on a database. -/
def requireReadable : Act Unit := do
  requireOpen
  if (← get).session.isReadable then pure () else raise .notADatabase

/-- Makes something ready that depends on the tables, without a look at their rows. -/
def peek (f : Store → Except StoreError α) : Act α := do
  requireReadable
  let w ← get
  ofStore (f (w.session.data w.database))

/-- Looks at the data. -/
def look (f : Store → Except StoreError α) : Act α := do
  let a ← peek f
  modify fun w => { w with session := w.session.looked w.database }
  pure a

/-- Takes the right to write. -/
def claim : Act Unit := do
  let w ← get
  if w.session.readonly then raise .readOnly
  else if w.session.isLockedOut w.database then raise .locked
  else if w.session.isStale w.database then raise .stale
  else if w.session.transaction.isSome then
    set
      { w with
        session := w.session.looked w.database
        database := { w.database with writer := some w.session.number } }
  else pure ()

/-- Notes in the view of the transaction what became of its data. -/
def note (f : View → View) : Act Unit :=
  modify fun w =>
    match w.session.transaction with
    | some t =>
      { w with session := { w.session with transaction := some { t with view := t.view.map f } } }
    | none => w

/-- Keeps new data: in the transaction, or as a commit of its own if anything was written. -/
def keep (data : Store) (wrote : Bool) : Act Unit := do
  let w ← get
  if w.session.transaction.isSome then
    note fun v => { v with working := data, wrote := v.wrote || wrote }
  else if wrote then
    set { w with database := w.database.committed data }
  else pure ()

/-- The world after the transaction of its session is given up, if there is one. -/
def withdrawn (w : World) : World :=
  { w with
    session := { w.session with transaction := none }
    database :=
      if w.session.writes w.database then { w.database with writer := none } else w.database }

/-- Changes the data; an error that leaves no room ends the transaction, too. -/
def change (f : Store → Effect α) : Act α := do
  requireReadable
  let w ← get
  let effect := f (w.session.data w.database)
  match effect.result with
  | .ok (a, data) => do
    claim
    keep data effect.wrote
    pure a
  | .error e => do
    if e.beforeRun then pure ()
    else do
      claim
      if e = .full then modify withdrawn
      else note fun v => { v with wrote := v.wrote || effect.wrote }
    raise e

/-- Takes the right to write, or where there is none to take, a view of the data. -/
def acquire : Act Unit := do
  requireReadable
  let w ← get
  if w.session.readonly then set { w with session := w.session.looked w.database }
  else claim

/-- Starts a transaction, with the right to write if `immediate`. -/
def begin (immediate : Bool) : Act Unit := do
  requireOpen
  if immediate then acquire
  let w ← get
  if w.session.transaction.isSome then raise .nestedTransaction
  else do
    set { w with session := { w.session with transaction := some ⟨none, []⟩ } }
    if immediate then acquire

/-- Ends the transaction with a commit. -/
def commit : Act Unit := do
  requireOpen
  let w ← get
  match w.session.transaction with
  | none => raise (.noTransaction "commit")
  | some t =>
    let database :=
      match t.view with
      | some view =>
        if w.session.writes w.database then
          let released := { w.database with writer := none }
          if view.wrote then released.committed view.working else released
        else w.database
      | none => w.database
    set { w with session := { w.session with transaction := none }, database := database }

/-- Ends the transaction without a commit. -/
def rollback : Act Unit := do
  requireOpen
  let w ← get
  if w.session.transaction.isSome then set (withdrawn w) else raise (.noTransaction "rollback")

/-- Sets a savepoint in the transaction. -/
def save : Act Unit := do
  requireOpen
  modify fun w =>
    match w.session.transaction with
    | some t =>
      let t := { t with savepoints := t.view.map View.working :: t.savepoints }
      { w with session := { w.session with transaction := some t } }
    | none => w

/-- Forgets the newest savepoint. -/
def release : Act Unit := do
  requireOpen
  let w ← get
  match w.session.transaction with
  | some ⟨view, _ :: savepoints⟩ =>
    set { w with session := { w.session with transaction := some ⟨view, savepoints⟩ } }
  | _ => raise .noSavepoint

/-- Takes the data back to the newest savepoint, which stays. -/
def restore : Act Unit := do
  requireOpen
  let w ← get
  match w.session.transaction with
  | some ⟨view, saved :: savepoints⟩ =>
    let view := view.map fun v => { v with working := saved.getD v.base }
    set { w with session := { w.session with transaction := some ⟨view, saved :: savepoints⟩ } }
  | _ => raise .noSavepoint

/-- Closes the session; one in the middle of a reading stays open. -/
def close (reading : Bool) : Act Unit := do
  let w ← get
  if !w.session.isOpen then pure ()
  else if reading then
    report <| .ofCause .dbCloseFailed "Could not close the database."
      [("databaseName", .string w.session.name)] StoreError.busyReading.message
  else
    let w := withdrawn w
    set { w with session := { w.session with isOpen := false } }

end FilmReport.Act
