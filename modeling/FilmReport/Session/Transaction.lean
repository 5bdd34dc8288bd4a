import FilmReport.Session.Access

/-!
Transactions around actions. The outermost one begins and commits, one within another sets a
savepoint and releases it; an action that fails has its changes undone before its failure goes on.
-/

set_option autoImplicit false
set_option relaxedAutoImplicit false

namespace FilmReport

/-- How a transaction was entered: as the outermost one, or within another. -/
inductive Nesting where
  | outermost
  | inner
deriving DecidableEq, Repr

namespace Act

variable {α : Type}

/-- Makes the transaction statements of the session ready, once. -/
def prepareTransactions : Act Unit := do
  if (← get).session.prepared then pure ()
  else do
    requireOpen
    modify fun w => { w with session := { w.session with prepared := true } }

/-- Enters a transaction. -/
def enter : Act Nesting := do
  if (← get).session.inTransaction then do
    save
    pure .inner
  else do
    begin false
    pure .outermost

/-- Ends a transaction and keeps its changes. -/
def conclude : Nesting → Act Unit
  | .outermost => commit
  | .inner => release

/-- Ends a transaction and undoes its changes, if it has not ended by itself. -/
def abandon (nesting : Nesting) : Act Unit := do
  if (← get).session.inTransaction then
    match nesting with
    | .outermost => rollback
    | .inner => do
      restore
      release
  else pure ()

/-- Ends a transaction with the outcome of its work. -/
def leave (nesting : Nesting) (result : Except Failure α) : Act α := do
  let finish : Act α :=
    match result with
    | .ok a => do
      conclude nesting
      pure a
    | .error failure => throw failure
  match ← finish.outcome with
  | .ok a => pure a
  | .error failure => do
    abandon nesting
    throw failure

/-- Does all of an action's changes or none. -/
def transact (work : Act α) : Act α := do
  let nesting ← enter
  let result ← work.outcome
  leave nesting result

/-- The fault of a transaction in which something was raised. -/
def transactionFault (operation cause : String) : Fault :=
  .ofCause .dbTransactionFailed "Database transaction failed."
    [("operationName", .string operation)] cause

/-- Does all of a named operation's changes or none, and reports what it raises. -/
def inTransaction (operation : String) (work : Act α) : Act α := do
  prepareTransactions
  (transact work).reporting (transactionFault operation)

end Act
end FilmReport
