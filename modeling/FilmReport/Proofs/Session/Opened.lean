import FilmReport.Session.Host
import FilmReport.Proofs.Session.Framed
import FilmReport.Proofs.Store.Sound

/-!
What the host of a session has when the session is opened and when it is closed. Opening makes at
most the database of the request (`Host.opens_of_openSession`); closing gives the files back as they
are, but for a journal that is written into the file of its database
(`Host.exists_close_afterwards`).
-/

set_option autoImplicit false
set_option relaxedAutoImplicit false

namespace FilmReport

open World Act Store

namespace Files

variable {files : Files} {path : String} {number : Nat}

end Files

namespace Host

variable {h h' : Host} {r : OpenRequest}

/-- The path of the file in which a request finds its database. -/
def databasePath (h : Host) (r : OpenRequest) : String :=
  Path.resolve h.directory (Text.upToNul r.file)

/-- The files after a session was opened: a database is made where there was none. -/
def HasOpened (h : Host) (r : OpenRequest) (files : Files) : Prop :=
  files = h.files ∨ h.files.isDirectory (h.databasePath r) = false ∧
    files = h.files.put (h.databasePath r) (.database h.next)

/-- What was opened, and that it holds the database if it can be written. -/
structure Opens (h : Host) (r : OpenRequest) (readonly : Bool) (opening : Opening) : Prop where
  files : h.HasOpened r opening.files
  held : readonly = false → ∀ path, opening.place = .file path →
    opening.files.get? path = some (.database opening.database)

theorem opens_of_openFile {t : Terms} {opening : Opening}
    (hopen : h.openFile (h.databasePath r) t = .ok opening) : h.Opens r t.readonly opening := by
  have hmade : h.files.isDirectory (h.databasePath r) = false →
      h.Opens r t.readonly ⟨.file (h.databasePath r), h.next, true,
        h.files.put (h.databasePath r) (.database h.next)⟩ := by
    intro hfree
    refine ⟨.inr ⟨hfree, rfl⟩, ?_⟩
    rintro - path ⟨⟩
    refine Files.get?_put_self ?_ _ _
    intro hroot
    rw [hroot] at hfree
    cases hfree
  rw [openFile] at hopen
  cases hget : h.files.get? (h.databasePath r) with
  | none =>
    rw [hget] at hopen
    dsimp only at hopen
    split at hopen
    · cases hopen
    · obtain rfl := Except.ok.inj hopen
      exact hmade (by rw [Files.isDirectory, hget]; rfl)
  | some entry =>
    rw [hget] at hopen
    cases entry with
    | directory => cases hopen
    | database n =>
      obtain rfl := Except.ok.inj hopen
      refine ⟨.inl rfl, ?_⟩
      rintro - path ⟨⟩
      exact hget
    | text content =>
      dsimp only at hopen
      split at hopen
      · obtain rfl := Except.ok.inj hopen
        exact hmade (by rw [Files.isDirectory, hget]; rfl)
      · split at hopen
        · next hreadonly =>
          obtain rfl := Except.ok.inj hopen
          exact ⟨.inl rfl, fun hwritable => absurd (hwritable.symm.trans hreadonly) nofun⟩
        · cases hopen

theorem opens_of_locate {opening : Opening} {terms : Terms}
    (hlocate : h.locate r = .ok (opening, terms)) :
    h.Opens r terms.readonly opening ∧ Host.terms? r = .ok terms := by
  obtain ⟨t, hterms, hlocate⟩ := exists_of_bind hlocate
  split at hlocate
  · obtain ⟨rfl, rfl⟩ := Prod.mk.inj (Except.ok.inj hlocate)
    refine ⟨⟨.inl rfl, fun _ path hplace => ?_⟩, hterms⟩
    dsimp only at hplace
    split at hplace <;> cases hplace
  · dsimp only at hlocate
    split at hlocate
    · cases hlocate
    · obtain ⟨found, hopen, hlocate⟩ := exists_of_bind hlocate
      obtain ⟨rfl, rfl⟩ := Prod.mk.inj (Except.ok.inj hlocate)
      exact ⟨opens_of_openFile hopen, hterms⟩

/-- A request to write has terms on which can be written. -/
theorem readonly_of_terms? {terms : Terms} (hterms : Host.terms? r = .ok terms)
    (hr : r.readonly = .bool false) : terms.readonly = false := by
  rw [terms?, hr] at hterms
  obtain ⟨readonly, hreadonly, hterms⟩ := exists_of_bind hterms
  obtain rfl := Except.ok.inj hreadonly
  obtain ⟨mustExist, -, hterms⟩ := exists_of_bind hterms
  obtain ⟨timeout, -, hterms⟩ := exists_of_bind hterms
  rw [← Except.ok.inj hterms]

/-- A session that is opened to write holds its database; beside it the host is as it was. -/
theorem opens_of_openSession {n : Nat} (hopen : h.openSession r = (.ok n, h'))
    (hr : r.readonly = .bool false) : h.HasOpened r h'.files ∧ h'.directory = h.directory ∧
      h'.stamp = h.stamp ∧ ∃ x, h'.session? n = some x ∧ x.readonly = false ∧
        ∀ path, x.place = .file path → h'.files.get? path = some (.database x.database) := by
  obtain ⟨opening, terms, x, hlocate, hx, hfiles, hplace, hdatabase, hreadonly⟩ :=
    exists_opening hopen
  obtain ⟨hopens, hterms⟩ := opens_of_locate hlocate
  have hwritable := readonly_of_terms? hterms hr
  have hhost : h'.directory = h.directory ∧ h'.stamp = h.stamp := by
    rw [openSession, hlocate] at hopen
    obtain ⟨-, rfl⟩ := Prod.mk.inj hopen
    exact ⟨rfl, rfl⟩
  refine ⟨hfiles ▸ hopens.files, hhost.1, hhost.2, x, hx, hreadonly.trans hwritable, ?_⟩
  rw [hplace, hdatabase, hfiles]
  exact hopens.held hwritable

theorem eq_of_openSession_error {f : Fault} (hopen : h.openSession r = (.error f, h')) :
    h' = h := by
  rw [openSession] at hopen
  cases hlocate : h.locate r with
  | error e =>
    rw [hlocate] at hopen
    exact (Prod.mk.inj hopen).2.symm
  | ok found =>
    rw [hlocate] at hopen
    cases (Prod.mk.inj hopen).1

end Host

theorem Host.store_withJournal (d : Database) (place : Place) (readonly : Bool) :
    (withJournal d place readonly).store = d.store := by
  cases place <;> rfl

theorem Host.run_of_on {α : Type} {h : Host} {x : Session} {act : Act α} {w : World}
    {clock : List (Option Calendar.Instant)} {r : Except Failure α}
    (hon : act.on (h.worldOf x clock) = (r, w)) :
    h.run x clock act = ((r, w.journal), h.afterwards w) := by
  rw [Host.run, show act (h.worldOf x clock) = (r, w) from hon]

/-- A session that is closed is where it was; the files are left, and what is committed. -/
theorem Act.exists_on_close {w : World} (hopen : w.session.isOpen = true) :
    ∃ w', (Act.close false).on w = (.ok ⟨⟩, w') ∧ w'.seat = { w.seat with isOpen := false } ∧
      w'.files = w.files ∧ ∃ writer, w'.database = { w.database with writer := writer } := by
  rw [Act.close, on_bind_of_ok (on_get w), hopen]
  refine ⟨_, rfl, rfl, rfl, ?_⟩
  rw [Act.withdrawn]
  dsimp only
  split
  · exact ⟨none, rfl⟩
  · exact ⟨w.database.writer, rfl⟩

namespace Host

/-- An open session does not end its journal. -/
theorem endsJournal_of_isOpen (h : Host) {s : Session} (hs : s.isOpen = true) :
    h.endsJournal s = false := by
  simp [endsJournal, hs]

/-- A session that was closed ends its journal if no other has its database. -/
theorem endsJournal_of_closed {h : Host} {s t : Session} (ht : h.session? s.number = some t)
    (hopen : t.isOpen = true) (hclosed : s.isOpen = false) (hwritable : s.readonly = false) :
    h.endsJournal s = !h.isShared s := by
  simp [endsJournal, ht, hopen, hclosed, hwritable]

theorem store_database_afterwards (h : Host) (w : World) :
    ((h.afterwards w).database w.session.database).store = w.database.store := by
  rw [database_afterwards]
  split <;> rfl

/-- An open session sees after an action what the action left. -/
theorem worldOf_afterwards_of_isOpen (h : Host) {w : World} (hopen : w.session.isOpen = true)
    (clock : List (Option Calendar.Instant)) :
    ((h.afterwards w).worldOf w.session clock).files = w.files ∧
      ((h.afterwards w).worldOf w.session clock).database = w.database := by
  have hends := h.endsJournal_of_isOpen hopen
  rw [worldOf, files_afterwards, database_afterwards, hends]
  exact ⟨rfl, rfl⟩

/-- After an action in a writable session and the closing of the session, the files are those that
the action left, but for a journal that is written back if no other session has the database; what
was committed is kept. -/
theorem exists_close_afterwards (h : Host) {w : World} (hopen : w.session.isOpen = true)
    (hwritable : w.session.readonly = false) (clock : List (Option Calendar.Instant)) :
    ∃ v, (Act.close false).on ((h.afterwards w).worldOf w.session clock) = (.ok ⟨⟩, v) ∧
      ((h.afterwards w).afterwards v).files =
        (if h.isShared w.session then w.files else writtenBack w) ∧
      (((h.afterwards w).afterwards v).database w.session.database).store = w.database.store ∧
      ∀ d, d ≠ w.session.database → ((h.afterwards w).afterwards v).database d = h.database d := by
  obtain ⟨hfiles, hdatabase⟩ := h.worldOf_afterwards_of_isOpen hopen clock
  obtain ⟨v, hclose, hseat, hvfiles, writer, hvdatabase⟩ :=
    Act.exists_on_close (w := (h.afterwards w).worldOf w.session clock) hopen
  rw [hfiles] at hvfiles
  rw [hdatabase] at hvdatabase
  have hnumber : v.session.number = w.session.number := congrArg (·.number) hseat
  have hplace : v.session.place = w.session.place := congrArg (·.place) hseat
  have hsame : v.session.database = w.session.database := congrArg (·.database) hseat
  refine ⟨v, hclose, ?_, ?_, fun d hd => ?_⟩
  · have hback : writtenBack v = writtenBack w :=
      writtenBack_congr hvfiles hplace hsame (by rw [hvdatabase]) (by rw [hvdatabase])
    have hshared : (h.afterwards w).isShared v.session = h.isShared w.session := by
      rw [h.isShared_afterwards hnumber, isShared, isShared, hnumber, hsame]
    have hsession : (h.afterwards w).session? v.session.number = some w.session :=
      hnumber ▸ h.session?_afterwards_self w
    rw [files_afterwards, endsJournal_of_closed hsession hopen (congrArg (·.isOpen) hseat)
      ((congrArg (·.readonly) hseat).trans hwritable), hshared, hback, hvfiles]
    cases h.isShared w.session <;> rfl
  · rw [← hsame, store_database_afterwards, hvdatabase]
  · rw [database_afterwards_of_ne _ (hsame ▸ hd), database_afterwards_of_ne _ hd]

/-- Where the session's file holds its database, it stays as it is. -/
theorem writtenBack_eq {w : World} (hheld : ∀ path, w.session.place = .file path →
    w.files.get? path = some (.database w.session.database)) : writtenBack w = w.files := by
  rw [writtenBack]
  split
  · next path hplace => rw [hheld path hplace]
  · rfl

end Host

end FilmReport
