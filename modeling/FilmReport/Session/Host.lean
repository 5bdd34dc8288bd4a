import FilmReport.Session.Access
import FilmReport.Text.Blank

/-!
The host of sessions. Databases and sessions are known by numbers; a database in a file is shared by
all sessions opened on the file, one in memory has a single session. The journal of a database in a
file stands beside it until its last session is closed, unless that one may only read. An action
runs in one session and sees the host's files and that session's database.
-/

set_option autoImplicit false
set_option relaxedAutoImplicit false

namespace FilmReport

/-- The files, databases and sessions of a machine. -/
structure Host where
  files : Files
  directory : String
  databases : List (Nat × Database)
  sessions : List (Nat × Session)
  /-- A number above all that were given. -/
  next : Nat
  /-- The time of day. -/
  stamp : String

/-- What a session is asked to be opened with. -/
structure OpenRequest where
  name : String
  readonly : Json
  mustExist : Json
  /-- The time, in milliseconds, for which the session waits for the right to write. -/
  timeout : Json

namespace OpenRequest

/-- The name of the file, or of no file. -/
def file (r : OpenRequest) : String :=
  Text.trimSpace r.name

/-- Whether the database is in no file. -/
def isAnonymous (r : OpenRequest) : Bool :=
  r.file = "" || r.file = ":memory:"

end OpenRequest

/-- The terms on which a session is opened. -/
structure Terms where
  readonly : Bool
  mustExist : Bool
  timeout : Int

namespace Host

variable {α : Type}

private def lookup? (n : Nat) (entries : List (Nat × α)) : Option α :=
  (entries.find? fun entry => entry.1 = n).map Prod.snd

private def assign (n : Nat) (a : α) : List (Nat × α) → List (Nat × α)
  | [] => [(n, a)]
  | (m, b) :: rest => if m = n then (n, a) :: rest else (m, b) :: assign n a rest

private theorem lookup?_assign_self (n : Nat) (a : α) (entries : List (Nat × α)) :
    lookup? n (assign n a entries) = some a := by
  induction entries with
  | nil => simp [lookup?, assign]
  | cons entry rest ih =>
    by_cases h : entry.1 = n
    · simp [lookup?, assign, h]
    · simpa [lookup?, assign, h] using ih

private theorem lookup?_assign_of_ne {n m : Nat} (h : n ≠ m) (a : α) (entries : List (Nat × α)) :
    lookup? n (assign m a entries) = lookup? n entries := by
  induction entries with
  | nil => simp [lookup?, assign, h.symm]
  | cons entry rest ih =>
    by_cases hm : entry.1 = m
    · simp [lookup?, assign, hm, h.symm]
    · by_cases hn : entry.1 = n
      · simp [lookup?, assign, hn, h]
      · simpa [lookup?, assign, hm, hn] using ih

private theorem any_assign (n : Nat) (a : α) (p q : α → Bool) (entries : List (Nat × α)) :
    ((assign n a entries).any fun (m, b) => m ≠ n && p b && q b) =
      entries.any fun (m, b) => m ≠ n && p b && q b := by
  induction entries with
  | nil => simp [assign]
  | cons entry rest ih =>
    by_cases h : entry.1 = n
    · simp [assign, h]
    · rw [assign, if_neg h, List.any_cons, List.any_cons, ih]

def session? (h : Host) (n : Nat) : Option Session :=
  lookup? n h.sessions

def database (h : Host) (n : Nat) : Database :=
  (lookup? n h.databases).getD .empty

/-- The longest time, in milliseconds, that a session can be told to wait. -/
def longestTimeout : Int := 2147483647

def timeout? : Json → Except StoreError Int
  | .number x =>
    match x.toInt? with
    | some n =>
      if n < 0 then .error .badTimeout
      else if longestTimeout < n then .error .longTimeout
      else .ok n
    | none => .error .badTimeout
  | _ => .error .badTimeout

def flag? (option : String) : Json → Except StoreError Bool
  | .bool b => .ok b
  | _ => .error (.notFlag option)

/-- The terms that a request asks for, unless there are no such terms. -/
def terms? (r : OpenRequest) : Except StoreError Terms := do
  let readonly ← flag? "readonly" r.readonly
  let mustExist ← flag? "fileMustExist" r.mustExist
  if readonly && r.isAnonymous then throw .anonymousReadOnly
  pure ⟨readonly, mustExist, ← timeout? r.timeout⟩

/-- The most bytes that a file may have to count as an empty database. -/
def blankSize : Nat := 1

/-- Where a session finds its database. -/
structure Opening where
  place : Place
  /-- The number of the database. -/
  database : Nat
  isReadable : Bool
  files : Files

/-- The database in the file at an absolute path; a new one gets the next number. -/
def openFile (h : Host) (path : String) (t : Terms) : Except StoreError Opening :=
  let made : Opening := ⟨.file path, h.next, true, h.files.put path (.database h.next)⟩
  match h.files.get? path with
  | some (.database n) => .ok ⟨.file path, n, true, h.files⟩
  | some .directory => .error (if t.readonly then .unreadableFile else .cannotOpen)
  | some (.text content) =>
    if content.utf8ByteSize ≤ blankSize then .ok made
    else if t.readonly then .ok ⟨.file path, h.next, false, h.files⟩
    else .error .notADatabase
  | none =>
    if t.mustExist || t.readonly || !h.files.isDirectory (Path.parent path) ||
        Files.isTooLong path then .error .cannotOpen
    else .ok made

/-- The database of a request, and the terms on which it is opened. -/
def locate (h : Host) (r : OpenRequest) : Except StoreError (Opening × Terms) := do
  let terms ← terms? r
  if r.isAnonymous then
    let place := if r.file = "" then Place.temporary else .memory
    pure (⟨place, h.next, true, h.files⟩, terms)
  else
    let above := Path.directoryPart r.file
    if above.toList.contains '\x00' || (h.files.find? h.directory above).isNone then
      throw .noDirectory
    let opening ← h.openFile (Path.resolve h.directory (Text.upToNul r.file)) terms
    pure (opening, terms)

/-- The database after a session was opened on it; a writable one on a file begins a journal. -/
def withJournal (d : Database) (place : Place) (readonly : Bool) : Database :=
  match place with
  | .file _ =>
    let journaled := d.journaled || !readonly
    { d with journaled := journaled, hasJournal := journaled }
  | _ => d

/-- Opens a session; answers its number. -/
def openSession (h : Host) (r : OpenRequest) : Except Fault Nat × Host :=
  match h.locate r with
  | .error e =>
    (.error (.ofCause .dbOpenFailed "Could not open the database."
      [("filename", .string r.name), ("timeoutMs", r.timeout)] e.message), h)
  | .ok (opening, terms) =>
    let session : Session :=
      { number := h.next, database := opening.database, name := r.name, place := opening.place,
        readonly := terms.readonly, isReadable := opening.isReadable, timeout := terms.timeout,
        isOpen := true, prepared := false, transaction := none }
    let database := withJournal (h.database opening.database) opening.place terms.readonly
    (.ok h.next,
      { h with
        files := opening.files
        databases := assign opening.database database h.databases
        sessions := assign h.next session h.sessions
        next := h.next + 1 })

/-- A session that was opened is the one with the next number; it is in no transaction, and its
database is the one there was, but for the journal. -/
theorem exists_of_openSession {h h' : Host} {r : OpenRequest} {n : Nat}
    (hopen : h.openSession r = (.ok n, h')) : n = h.next ∧ h'.next = h.next + 1 ∧
      (∀ m, m ≠ n → h'.session? m = h.session? m) ∧ ∃ x, h'.session? n = some x ∧
      x.number = n ∧ x.isOpen = true ∧ x.transaction = none ∧
      h'.database x.database = withJournal (h.database x.database) x.place x.readonly ∧
      ∀ d, d ≠ x.database → h'.database d = h.database d := by
  rw [openSession] at hopen
  cases hlocate : h.locate r with
  | error e =>
    rw [hlocate] at hopen
    cases (Prod.mk.inj hopen).1
  | ok found =>
    obtain ⟨opening, terms⟩ := found
    rw [hlocate] at hopen
    obtain ⟨hn, rfl⟩ := Prod.mk.inj hopen
    obtain rfl : h.next = n := Except.ok.inj hn
    refine ⟨rfl, rfl, fun m hm => lookup?_assign_of_ne hm _ _, _, lookup?_assign_self _ _ _, rfl,
      rfl, rfl, ?_, fun d hd => ?_⟩
    · rw [database, lookup?_assign_self]
      rfl
    · rw [database, lookup?_assign_of_ne hd]
      rfl

/-- A session that was opened is where the request found its database, and on the terms of the
request. -/
theorem exists_opening {h h' : Host} {r : OpenRequest} {n : Nat}
    (hopen : h.openSession r = (.ok n, h')) : ∃ opening terms x,
      h.locate r = .ok (opening, terms) ∧ h'.session? n = some x ∧ h'.files = opening.files ∧
        x.place = opening.place ∧ x.database = opening.database ∧ x.readonly = terms.readonly := by
  rw [openSession] at hopen
  cases hlocate : h.locate r with
  | error e =>
    rw [hlocate] at hopen
    cases (Prod.mk.inj hopen).1
  | ok found =>
    obtain ⟨opening, terms⟩ := found
    rw [hlocate] at hopen
    obtain ⟨hn, rfl⟩ := Prod.mk.inj hopen
    obtain rfl : h.next = n := Except.ok.inj hn
    exact ⟨opening, terms, _, rfl, lookup?_assign_self _ _ _, rfl, rfl, rfl, rfl⟩

theorem writer_withJournal (d : Database) (place : Place) (readonly : Bool) :
    (withJournal d place readonly).writer = d.writer := by
  cases place <;> rfl

theorem journaled_withJournal {d : Database} (h : d.journaled = true) (place : Place)
    (readonly : Bool) : (withJournal d place readonly).journaled = true := by
  cases place with
  | file path =>
    rw [withJournal, h]
    rfl
  | _ => exact h

/-- A writable session on a file begins a journal. -/
theorem journaled_withJournal_file (d : Database) (path : String) :
    (withJournal d (.file path) false).journaled = true :=
  Bool.or_true _

/-- The way in which a session keeps what is not committed yet. -/
def journalMode (s : Session) (d : Database) : String :=
  match s.place with
  | .memory => "memory"
  | .temporary => "delete"
  | .file _ => if d.journaled then "wal" else "delete"

/-- How a session was opened. -/
def describe (h : Host) (s : Session) : Except StoreError Json :=
  if !s.isReadable then .error .notADatabase
  else
    .ok <| .object
      [("memory", .bool (s.place = .memory || s.place = .temporary)),
       ("readonly", .bool s.readonly), ("foreignKeys", .ofNat 1),
       ("busyTimeout", .ofInt s.timeout),
       ("journalMode", .string (journalMode s (h.database s.database)))]

/-- The host as an action in a session sees it. -/
def worldOf (h : Host) (s : Session) (clock : List (Option Calendar.Instant)) : World where
  session := s
  database := h.database s.database
  files := h.files
  directory := h.directory
  clock := clock
  stamp := h.stamp
  journal := []

/-- Whether another open session has the database of a session. -/
def isShared (h : Host) (s : Session) : Bool :=
  h.sessions.any fun (n, other) =>
    n ≠ s.number && other.database = s.database && other.isOpen

/-- Whether a session that was open is closed and takes the journal of its database along. -/
def endsJournal (h : Host) (s : Session) : Bool :=
  (h.session? s.number).any (·.isOpen) && !s.isOpen && !s.readonly && !h.isShared s

/-- A database whose journal was written into its file. -/
def withoutJournal (d : Database) : Database :=
  { d with hasJournal := false, filed := d.version }

/--
The files after the journal of the session's database was written into its file. If it has commits,
a text that was written over the file is lost; what the file had before that text is taken to be in
the journal too.
-/
def writtenBack (w : World) : Files :=
  match w.session.place with
  | .file path =>
    match w.files.get? path with
    | some (.text _) =>
      if w.database.filed < w.database.version then
        w.files.put path (.database w.session.database)
      else w.files
    | _ => w.files
  | _ => w.files

/-- The host after an action in a session. -/
def afterwards (h : Host) (w : World) : Host :=
  let ends := h.endsJournal w.session
  let database := if ends then withoutJournal w.database else w.database
  { h with
    files := if ends then writtenBack w else w.files
    databases := assign w.session.database database h.databases
    sessions := assign w.session.number w.session h.sessions }

/-- After an action its session is the one that the action left. -/
theorem session?_afterwards_self (h : Host) (w : World) :
    (h.afterwards w).session? w.session.number = some w.session :=
  lookup?_assign_self _ _ _

theorem session?_afterwards_of_ne (h : Host) {w : World} {n : Nat} (hn : n ≠ w.session.number) :
    (h.afterwards w).session? n = h.session? n :=
  lookup?_assign_of_ne hn _ _

/-- After an action its database is the one that the action left, but for the journal if this was
ended. -/
theorem database_afterwards (h : Host) (w : World) :
    (h.afterwards w).database w.session.database =
      if h.endsJournal w.session then withoutJournal w.database else w.database := by
  rw [database, afterwards, lookup?_assign_self]
  rfl

/-- After an action the files are those that it left, but for a journal that was ended. -/
theorem files_afterwards (h : Host) (w : World) :
    (h.afterwards w).files = if h.endsJournal w.session then writtenBack w else w.files := rfl

theorem database_afterwards_of_ne (h : Host) {w : World} {d : Nat} (hd : d ≠ w.session.database) :
    (h.afterwards w).database d = h.database d := by
  rw [database, afterwards, lookup?_assign_of_ne hd]
  rfl

/-- Whether others have the database of a session is not changed by an action in the session. -/
theorem isShared_afterwards (h : Host) {w : World} {s : Session}
    (hs : s.number = w.session.number) : (h.afterwards w).isShared s = h.isShared s := by
  rw [isShared, isShared, hs]
  exact any_assign _ _ (fun other => other.database = s.database) (·.isOpen) h.sessions

theorem isShared_openSession {h h' : Host} {r : OpenRequest} {s : Session}
    (hopen : h.openSession r = (.ok s.number, h')) : h'.isShared s = h.isShared s := by
  rw [openSession] at hopen
  cases hlocate : h.locate r with
  | error e =>
    rw [hlocate] at hopen
    cases (Prod.mk.inj hopen).1
  | ok found =>
    obtain ⟨opening, terms⟩ := found
    rw [hlocate] at hopen
    obtain ⟨hnumber, rfl⟩ := Prod.mk.inj hopen
    rw [isShared, isShared, ← Except.ok.inj hnumber]
    exact any_assign _ _ (fun other => other.database = s.database) (·.isOpen) h.sessions

/-- What is written back depends on the files, the session's place and its database alone. -/
theorem writtenBack_congr {w w' : World} (hfiles : w.files = w'.files)
    (hplace : w.session.place = w'.session.place)
    (hnumber : w.session.database = w'.session.database)
    (hfiled : w.database.filed = w'.database.filed)
    (hversion : w.database.version = w'.database.version) : writtenBack w = writtenBack w' := by
  rw [writtenBack, writtenBack, hfiles, hplace, hnumber, hfiled, hversion]

/-- The files of the journal of a database, beside that at `path`. -/
def journalFiles (path : String) : List String :=
  [path ++ "-shm", path ++ "-wal"]

/-- All files, those of journals among them. -/
def allFiles (h : Host) : Files :=
  h.files.foldl (fun acc (path, entry) =>
    match entry with
    | .database n =>
      if (h.database n).hasJournal then
        (journalFiles path).foldl (fun acc name => acc.put name (.text "")) acc
      else acc
    | _ => acc) h.files

/-- Runs an action in a session; answers its outcome and what it wrote to the journal. -/
def run (h : Host) (s : Session) (clock : List (Option Calendar.Instant)) (act : Act α) :
    (Except Failure α × List Journal.Entry) × Host :=
  let (result, w) := act (h.worldOf s clock)
  ((result, w.journal), h.afterwards w)

end Host
end FilmReport
