import FilmReport.Proofs.Session.Whole

/-!
Actions as scripts. Between two statements of an action another session may have its turn. A script
gives the statements of an action one by one, each with what is done after it; what a script does
when no other session comes in between is the action (`Script.act`).
-/

set_option autoImplicit false
set_option relaxedAutoImplicit false

namespace FilmReport

open Act World

/-- A statement of a session that only begins, ends or divides its transaction. -/
inductive Bracket where
  /-- The transaction statements are made ready. -/
  | prepare
  | begin
  | commit
  | rollback
  | save
  | release
  | restore
deriving DecidableEq, Repr

def Bracket.act : Bracket → Act Unit
  | prepare => prepareTransactions
  | begin => Act.begin false
  | commit => Act.commit
  | rollback => Act.rollback
  | save => Act.save
  | release => Act.release
  | restore => Act.restore

/-- What a session does while no other session has its turn. -/
inductive Deed : Type → Type 1 where
  | bracket (b : Bracket) : Deed Unit
  /-- The session is asked whether it is in a transaction. -/
  | isWithin : Deed Bool
  | peek {α : Type} (f : Store → Except StoreError α) : Deed α
  | look {α : Type} (f : Store → Except StoreError α) : Deed α
  | change {α : Type} (f : Store → Effect α) : Deed α
  | log (logger : Journal.Logger) (level : Journal.Level) (message : String) (context : Fields) :
    Deed Unit

/-- What is done. -/
def Deed.act {α : Type} : Deed α → Act α
  | bracket b => b.act
  | isWithin => do pure (← get).session.inTransaction
  | peek f => Act.peek f
  | look f => Act.look f
  | change f => Act.change f
  | log logger level message context => Act.log logger level message context

/-- The deeds of an action, each with what follows it. -/
inductive Script (α : Type) : Type 1 where
  | ends (result : Except Failure α)
  | next {β : Type} (deed : Deed β) (rest : Except Failure β → Script α)

namespace Script

variable {α β : Type}

protected def bind : Script α → (α → Script β) → Script β
  | ends (.ok a), f => f a
  | ends (.error e), _ => ends (.error e)
  | next deed rest, f => next deed fun r => (rest r).bind f

instance : Monad Script where
  pure a := ends (.ok a)
  bind := Script.bind

/-- The script of a single deed. -/
def does (deed : Deed α) : Script α :=
  next deed ends

/-- A script with another result in the end. -/
def ending (g : Except Failure α → Except Failure β) : Script α → Script β
  | ends r => ends (g r)
  | next deed rest => next deed fun r => (rest r).ending g

/-- The outcome of a script as a value. -/
def outcome (script : Script α) : Script (Except Failure α) :=
  script.ending .ok

/-- A script whose raised causes are reported as faults. -/
def reporting (fault : String → Fault) (script : Script α) : Script α :=
  script.ending (reported fault)

def raise (e : Failure) : Script α :=
  ends (.error e)

/-- Enters a transaction. -/
def enter : Script Nesting := do
  if ← does .isWithin then do
    does (.bracket .save)
    pure .inner
  else do
    does (.bracket .begin)
    pure .outermost

/-- Ends a transaction and keeps its changes. -/
def conclude : Nesting → Script Unit
  | .outermost => does (.bracket .commit)
  | .inner => does (.bracket .release)

/-- Ends a transaction and undoes its changes, if it has not ended by itself. -/
def abandon (nesting : Nesting) : Script Unit := do
  if ← does .isWithin then
    match nesting with
    | .outermost => does (.bracket .rollback)
    | .inner => do
      does (.bracket .restore)
      does (.bracket .release)
  else pure ()

/-- Ends a transaction with the outcome of its work. -/
def leave (nesting : Nesting) (result : Except Failure α) : Script α := do
  let finish : Script α :=
    match result with
    | .ok a => do
      conclude nesting
      pure a
    | .error failure => raise failure
  match ← finish.outcome with
  | .ok a => pure a
  | .error failure => do
    abandon nesting
    raise failure

/-- Does all of a script's changes or none. -/
def transact (work : Script α) : Script α := do
  let nesting ← enter
  let result ← work.outcome
  leave nesting result

/-- Does all of a named operation's changes or none, and reports what it raises. -/
def inTransaction (operation : String) (work : Script α) : Script α := do
  does (.bracket .prepare)
  (transact work).reporting (transactionFault operation)

/-- What a script does when no other session comes in between. -/
def act : Script α → Act α
  | ends r => fun w => (r, w)
  | next deed rest => do
    let r ← deed.act.outcome
    (rest r).act

theorem on_next (deed : Deed β) (rest : Except Failure β → Script α) (w : World) :
    (next deed rest).act.on w = (rest (deed.act.on w).1).act.on (deed.act.on w).2 := by
  rw [act, on_bind, on_outcome]

@[simp]
theorem act_pure (a : α) : (pure a : Script α).act = pure a := rfl

@[simp]
theorem act_raise (e : Failure) : (raise e : Script α).act = throw e := rfl

@[simp]
theorem act_does (deed : Deed α) : (does deed).act = deed.act := by
  funext w
  exact on_next deed ends w

theorem on_ending (g : Except Failure α → Except Failure β) (script : Script α) (w : World) :
    (script.ending g).act.on w = (g (script.act.on w).1, (script.act.on w).2) := by
  induction script generalizing w with
  | ends r => rfl
  | next deed rest ih => rw [ending, on_next, on_next, ih]

@[simp]
theorem act_outcome (script : Script α) : script.outcome.act = script.act.outcome := by
  funext w
  exact on_ending .ok script w

@[simp]
theorem act_reporting (fault : String → Fault) (script : Script α) :
    (script.reporting fault).act = script.act.reporting fault := by
  funext w
  exact (on_ending _ script w).trans (on_reporting fault script.act w).symm

@[simp]
theorem act_bind (script : Script α) (f : α → Script β) :
    (script >>= f).act = script.act >>= fun a => (f a).act := by
  funext w
  change (script.bind f).act.on w = _
  induction script generalizing w with
  | ends r => cases r <;> rfl
  | next deed rest ih =>
    rw [Script.bind, on_next, ih]
    change _ = Act.on _ w
    rw [on_bind, on_next]
    exact on_bind _ _ _

theorem act_ite (b : Bool) (script script' : Script α) :
    (if b then script else script').act = if b then script.act else script'.act := by
  cases b <;> rfl

theorem act_forM (f : β → Script PUnit) (items : List β) :
    (items.forM f).act = items.forM fun b => (f b).act := by
  induction items with
  | nil => rfl
  | cons b rest ih =>
    change (f b >>= fun _ => rest.forM f).act = (f b).act >>= fun _ => rest.forM fun b => (f b).act
    rw [act_bind, ih]

@[simp]
theorem act_enter : enter.act = Act.enter := by
  rw [enter, act_bind, Act.enter]
  simp only [act_ite, act_bind, act_does, act_pure]
  rfl

@[simp]
theorem act_conclude (nesting : Nesting) : (conclude nesting).act = Act.conclude nesting := by
  cases nesting <;> exact act_does _

@[simp]
theorem act_abandon (nesting : Nesting) : (abandon nesting).act = Act.abandon nesting := by
  cases nesting <;>
    simp only [abandon, Act.abandon, act_ite, act_bind, act_does, act_pure] <;> rfl

@[simp]
theorem act_leave (nesting : Nesting) (result : Except Failure α) :
    (leave nesting result).act = Act.leave nesting result := by
  have hlast : ∀ r : Except Failure α,
      (match r with
        | .ok a => pure a
        | .error failure => do
          abandon nesting
          raise failure : Script α).act =
        (match r with
        | .ok a => pure a
        | .error failure => do
          Act.abandon nesting
          throw failure) := by
    intro r
    cases r with
    | ok a => rfl
    | error e => simp only [act_bind, act_abandon, act_raise]
  cases result with
  | ok a =>
    rw [leave, act_bind, act_outcome, act_bind, act_conclude]
    exact congrArg _ (funext hlast)
  | error e =>
    rw [leave, act_bind, act_outcome, act_raise]
    exact congrArg _ (funext hlast)

@[simp]
theorem act_transact (work : Script α) : (transact work).act = Act.transact work.act := by
  simp only [transact, act_bind, act_enter, act_outcome, act_leave, Act.transact]

@[simp]
theorem act_inTransaction (operation : String) (work : Script α) :
    (inTransaction operation work).act = Act.inTransaction operation work.act := by
  simp only [inTransaction, act_bind, act_does, act_reporting, act_transact, Act.inTransaction]
  rfl

end Script
end FilmReport
