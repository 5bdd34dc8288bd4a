import FilmReport.Proofs.Session.Along
import FilmReport.Proofs.Dataset.Listing
import FilmReport.Proofs.Operation.Writing
import FilmReport.Session.Host

/-!
A database that a writer and a reader share. They take turns in any order, one statement a turn:
the writer with the statements of its work, the reader with listings and with what begins, divides
and ends its transactions.

The reader writes nothing. Outside of transactions, and in one up to its first look, it sees what is
committed; from then on it sees the commit of that look up to the end of the transaction
(`World.Glances.fixed`), and it changes nothing (`World.Glances.database`). `Going` is kept by every
turn, and with it what is committed and what the reader sees can be followed (`Going.write`,
`Going.acted`).
-/

set_option autoImplicit false
set_option relaxedAutoImplicit false

namespace FilmReport

open Act World

namespace Session

variable {x : Session} {s : Store}

/-- The transaction of the session, if there is one, has no view yet. -/
def Unfixed (x : Session) : Prop :=
  ∀ t, x.transaction = some t → t.view = none ∧ ∀ saved ∈ t.savepoints, saved = none

/-- The transaction of the session has a view of given data, and has written nothing. -/
def Fixed (s : Store) (x : Session) : Prop :=
  ∃ t v, x.transaction = some t ∧ t.view = some v ∧ v.base = s ∧ v.working = s ∧
    ∀ saved ∈ t.savepoints, saved = none ∨ saved = some s

/-- Whether the transaction of the session has a view. -/
def isFixed (x : Session) : Bool :=
  (x.transaction.bind (·.view)).isSome

theorem unfixed_of_outside (h : x.transaction = none) : x.Unfixed := by
  intro t ht
  rw [h] at ht
  cases ht

theorem Unfixed.isFixed (h : x.Unfixed) : x.isFixed = false := by
  rw [Session.isFixed]
  cases ht : x.transaction with
  | none => rfl
  | some t => exact congrArg Option.isSome (h t ht).1

theorem Fixed.isFixed (h : x.Fixed s) : x.isFixed = true := by
  obtain ⟨t, v, ht, hv, -⟩ := h
  rw [Session.isFixed, ht]
  exact congrArg Option.isSome hv

theorem Unfixed.data (h : x.Unfixed) (d : Database) : x.data d = d.store := by
  rw [Session.data]
  cases ht : x.transaction with
  | none => rfl
  | some t => rw [Option.bind_some, (h t ht).1]

theorem Fixed.data (h : x.Fixed s) (d : Database) : x.data d = s := by
  obtain ⟨t, v, ht, hv, -, hworking, -⟩ := h
  rw [Session.data, ht, Option.bind_some, hv]
  exact hworking

end Session

namespace World

variable {w w' : World} {s : Store}

/-- What a session makes of a world that only looks at data, and begins, divides and ends
transactions. -/
inductive Glances (w : World) : World → Prop where
  | turned {w' : World} : Turns w w' → Glances w w'
  | looked : Glances w w.looked

theorem Glances.frame (h : Glances w w') : w'.frame = w.frame := by
  cases h with
  | turned h => exact h.frame
  | looked => rfl

theorem published_of_not_writes (h : w.session.writes w.database = false) :
    w.published = w.database := by
  rw [published]
  cases w.session.transaction.bind (·.view) with
  | none => rfl
  | some v =>
    dsimp only
    rw [h]
    rfl

/-- A session that has no right to write changes nothing in the database. -/
theorem Glances.database (h : Glances w w') (hw : w.session.writes w.database = false) :
    w'.database = w.database := by
  cases h with
  | looked => rfl
  | turned h =>
    cases h with
    | committed => exact published_of_not_writes hw
    | withdrawn =>
      rw [withdrawn]
      dsimp only
      rw [hw]
      rfl
    | _ => rfl

/-- Where no view is taken, the next step takes none or one of the last commit. -/
theorem Glances.unfixed (h : Glances w w') (hw : w.session.Unfixed) :
    w'.session.Unfixed ∨ w'.session.Fixed w.database.store := by
  rcases w with ⟨⟨_, _, _, _, _, _, _, _, _, _ | ⟨view, savepoints⟩⟩, d⟩
  · left
    cases h with
    | looked => exact hw
    | turned h => cases h with
      | begun =>
        intro t ht
        obtain rfl := Option.some.inj ht
        exact ⟨rfl, List.forall_mem_nil _⟩
      | _ => exact Session.unfixed_of_outside rfl
  · obtain ⟨rfl, hsaved⟩ := hw _ rfl
    cases h with
    | looked => exact .inr ⟨_, _, rfl, rfl, rfl, rfl, fun saved hmem => .inl (hsaved saved hmem)⟩
    | turned h =>
      left
      cases h with
      | same => exact hw
      | prepared => exact hw
      | begun hnone => cases hnone
      | committed => exact Session.unfixed_of_outside rfl
      | withdrawn => exact Session.unfixed_of_outside rfl
      | saved =>
        intro t ht
        obtain rfl := Option.some.inj ht
        exact ⟨rfl, List.forall_mem_cons.2 ⟨rfl, hsaved⟩⟩
      | released =>
        intro t ht
        obtain rfl := Option.some.inj ht
        exact ⟨rfl, fun saved hmem => hsaved saved (List.mem_of_mem_tail hmem)⟩
      | rewound =>
        intro t ht
        obtain rfl := Option.some.inj ht
        exact ⟨rfl, hsaved⟩

/-- A view stays what it is up to the end of the transaction. -/
theorem Glances.fixed (h : Glances w w') (hw : w.session.Fixed s) :
    w'.session.Fixed s ∨ w'.session.transaction = none := by
  obtain ⟨t, v, ht, hv, hbase, hworking, hsaved⟩ := hw
  rcases w with ⟨⟨_, _, _, _, _, _, _, _, _, transaction⟩, d⟩
  obtain rfl : transaction = some t := ht
  obtain ⟨view, savepoints⟩ := t
  obtain rfl : view = some v := hv
  cases h with
  | looked => exact .inl ⟨_, v, rfl, rfl, hbase, hworking, hsaved⟩
  | turned h =>
    cases h with
    | same => exact .inl ⟨_, v, rfl, rfl, hbase, hworking, hsaved⟩
    | prepared => exact .inl ⟨_, v, rfl, rfl, hbase, hworking, hsaved⟩
    | begun hnone => cases hnone
    | committed => exact .inr rfl
    | withdrawn => exact .inr rfl
    | saved =>
      refine .inl ⟨_, v, rfl, rfl, hbase, hworking, List.forall_mem_cons.2 ⟨.inr ?_, hsaved⟩⟩
      exact congrArg some hworking
    | released =>
      exact .inl ⟨_, v, rfl, rfl, hbase, hworking,
        fun saved hmem => hsaved saved (List.mem_of_mem_tail hmem)⟩
    | rewound =>
      refine .inl ⟨_, _, rfl, rfl, hbase, ?_, hsaved⟩
      -- What a savepoint holds is the view itself, or nothing where there was no view yet.
      cases savepoints with
      | nil => exact hbase
      | cons saved rest =>
        obtain rfl | rfl := hsaved saved List.mem_cons_self
        · exact hbase
        · rfl

/-- A look within a transaction leaves it with a view. -/
theorem isFixed_looked (h : w.session.transaction.isSome = true) :
    w.looked.session.isFixed = true := by
  rcases w with ⟨⟨_, _, _, _, _, _, _, _, _, _ | t⟩, d⟩
  · cases h
  · rfl

end World

/-- Whether a transaction can end with the statement. -/
def Bracket.isLast : Bracket → Bool
  | commit => true
  | rollback => true
  | _ => false

/-- Nothing else ends a transaction. -/
theorem Bracket.isSome_on {b : Bracket} (hb : b.isLast = false) {w : World}
    (h : w.session.transaction.isSome = true) :
    (b.act.on w).2.session.transaction.isSome = true := by
  cases b with
  | commit => cases hb
  | rollback => cases hb
  | prepare => rcases w with ⟨⟨_, _, _, _, _, _, _, _ | _, _ | _, _⟩, _⟩ <;> exact h
  | begin => rcases w with ⟨⟨_, _, _, _, _, _, _, _ | _, _, _ | _⟩, _⟩ <;> first | exact h | rfl
  | save => rcases w with ⟨⟨_, _, _, _, _, _, _, _ | _, _, _ | _⟩, _⟩ <;> exact h
  | release =>
    rcases w with ⟨⟨_, _, _, _, _, _, _, _ | _, _, _ | ⟨_, _ | _⟩⟩, _⟩ <;> exact h
  | restore =>
    rcases w with ⟨⟨_, _, _, _, _, _, _, _ | _, _, _ | ⟨_, _ | _⟩⟩, _⟩ <;> exact h

end FilmReport

namespace FilmReport

open Dataset Normalize Store Act World

/-- What is done in one turn. -/
inductive Turn where
  /-- The writer begins new work, if it has done the work before. -/
  | starts (writing : Writing)
  /-- The writer makes the next statement of its work. -/
  | writes
  /-- The reader begins, divides or ends a transaction. -/
  | brackets (b : Bracket)
  /-- The reader lists memberships. -/
  | lists (asked : Option Json)

/-- Whether the reader's transaction can end with the turn. -/
def Turn.isLast : Turn → Bool
  | brackets b => b.isLast
  | _ => false

/-- The host after an action in the session with a number, if there is one. -/
def Host.acted {α : Type} (h : Host) (n : Nat) (act : Act α) : Host :=
  match h.session? n with
  | some x => (h.run x [] act).2
  | none => h

theorem Host.run_eq {α : Type} (h : Host) (x : Session) (act : Act α) :
    h.run x [] act = (((act.on (h.worldOf x [])).1, (act.on (h.worldOf x [])).2.journal),
      h.afterwards (act.on (h.worldOf x [])).2) := rfl

/-- The sessions of a writer and of a reader on a host, and what the writer has yet to do. -/
structure Sharing where
  host : Host
  writer : Nat
  reader : Nat
  rest : Script Unit

namespace Sharing

/-- Whether the writer has done its work. -/
def isIdle (p : Sharing) : Bool :=
  match p.rest with
  | .ends _ => true
  | .next _ _ => false

/-- The next statement of the writer. -/
def write (p : Sharing) : Sharing :=
  match p.rest, p.host.session? p.writer with
  | .next deed rest, some x =>
    let ((result, _), host) := p.host.run x [] deed.act
    { p with host := host, rest := rest result }
  | _, _ => p

/-- After one turn. -/
def after (p : Sharing) : Turn → Sharing
  | .starts writing => if p.isIdle then { p with rest := writing.script } else p
  | .writes => p.write
  | .brackets b => { p with host := p.host.acted p.reader b.act }
  | .lists asked => { p with host := p.host.acted p.reader (listAsked asked) }

/-- After the first of a list of turns. -/
def reach (p : Sharing) (turns : List Turn) (i : Nat) : Sharing :=
  (turns.take i).foldl after p

/-- The reader's session. -/
def session? (p : Sharing) : Option Session :=
  p.host.session? p.reader

/-- The database that the reader sees. -/
def database (p : Sharing) : Database :=
  match p.session? with
  | some y => p.host.database y.database
  | none => .empty

/-- Whether the reader is in a transaction. -/
def isWithin (p : Sharing) : Bool :=
  p.session?.any fun y => y.transaction.isSome

/-- What the reader is answered if it lists memberships now. -/
def answer (p : Sharing) (asked : Option Json) : Except Failure (List MembershipRecord) :=
  match p.session? with
  | some y => (p.host.run y [] (listAsked asked)).1.1
  | none => .error (.raised (.store .notOpen))

theorem reach_succ (p : Sharing) {turns : List Turn} {i : Nat} {turn : Turn}
    (h : turns[i]? = some turn) : p.reach turns (i + 1) = (p.reach turns i).after turn := by
  rw [reach, reach, List.take_add_one, h, List.foldl_append]
  rfl

theorem reach_succ_of_none (p : Sharing) {turns : List Turn} {i : Nat} (h : turns[i]? = none) :
    p.reach turns (i + 1) = p.reach turns i := by
  rw [reach, reach, List.take_add_one, h]
  exact congrArg (List.foldl after p) (List.append_nil _)

end Sharing

namespace World

variable {h : Host} {x y : Session} {w : World}

/-- A session that is not closed does not end the journal. -/
theorem endsJournal_of_frame (hx : h.session? x.number = some x)
    (hframe : w.frame = (h.worldOf x []).frame) : h.endsJournal w.session = false := by
  have hnumber : w.session.number = x.number := congrArg (·.session.number) hframe
  have hopen : w.session.isOpen = x.isOpen := congrArg (·.session.isOpen) hframe
  rw [Host.endsJournal, hnumber, hx, hopen]
  cases hx' : x.isOpen <;> simp [hx']

theorem database_afterwards_of_frame (hx : h.session? x.number = some x)
    (hframe : w.frame = (h.worldOf x []).frame) :
    (h.afterwards w).database x.database = w.database := by
  have hdatabase : w.session.database = x.database := congrArg (·.session.database) hframe
  rw [← hdatabase, Host.database_afterwards, endsJournal_of_frame hx hframe]
  rfl

theorem files_afterwards_of_frame (hx : h.session? x.number = some x)
    (hframe : w.frame = (h.worldOf x []).frame) : (h.afterwards w).files = h.files := by
  have hfiles : w.files = h.files := congrArg (·.files) hframe
  rw [Host.files_afterwards, endsJournal_of_frame hx hframe]
  exact hfiles

/-- The host after a deed shows its session what the deed left, but for the journal. -/
theorem worldOf_afterwards_of_frame (hx : h.session? x.number = some x)
    (hframe : w.frame = (h.worldOf x []).frame) :
    (h.afterwards w).worldOf w.session [] = w.logged [] := by
  have hdatabase : w.session.database = x.database := congrArg (·.session.database) hframe
  have hclock : w.clock = [] := congrArg (·.clock) hframe
  have hdirectory : w.directory = h.directory := congrArg (·.directory) hframe
  have hstamp : w.stamp = h.stamp := congrArg (·.stamp) hframe
  have hfiles : w.files = h.files := congrArg (·.files) hframe
  rw [Host.worldOf, hdatabase, database_afterwards_of_frame hx hframe,
    files_afterwards_of_frame hx hframe]
  obtain ⟨session, database, files, directory, clock, stamp, journal⟩ := w
  obtain rfl : clock = [] := hclock
  obtain rfl : directory = h.directory := hdirectory
  obtain rfl : stamp = h.stamp := hstamp
  obtain rfl : files = h.files := hfiles
  rfl

/-- A step that leaves the database as it is makes no difference to other sessions. -/
theorem worldOf_afterwards_of_database (hy : h.session? y.number = some y)
    (hframe : w.frame = (h.worldOf y []).frame) (hw : w.database = h.database y.database)
    (hsame : x.database = y.database) : (h.afterwards w).worldOf x [] = h.worldOf x [] := by
  rw [Host.worldOf, hsame, database_afterwards_of_frame hy hframe, hw, Host.worldOf, hsame,
    files_afterwards_of_frame hy hframe]
  rfl

end World

namespace Sharing

variable {made : Store → Store → Prop} {p : Sharing} {x y : Session}

/-- The writer `x` and the reader `y` have one database in a journaled file, the reader has no right
to write, and the rest of the writer's work makes only commits that `made` allows. -/
structure Going (made : Store → Store → Prop) (p : Sharing) (x y : Session) : Prop where
  writer : p.host.session? p.writer = some x
  reader : p.host.session? p.reader = some y
  writerNumber : x.number = p.writer
  readerNumber : y.number = p.reader
  apart : p.writer ≠ p.reader
  shared : x.database = y.database
  free : (p.host.database y.database).writer ≠ some p.reader
  journaled : (p.host.database y.database).journaled = true
  isOpen : y.isOpen = true
  isReadable : y.isReadable = true
  along : p.rest.Along (Script.Commits made)
    (fun _ v => v.session.isOpen = true ∧ v.savepoints = none) (p.host.worldOf x [])

namespace Going

theorem database (h : p.Going made x y) : p.database = p.host.database y.database := by
  rw [Sharing.database, session?, h.reader]

theorem isWithin (h : p.Going made x y) : p.isWithin = y.transaction.isSome := by
  rw [Sharing.isWithin, session?, h.reader]
  rfl

theorem obstacle (h : p.Going made x y) : (p.host.worldOf y []).obstacle = none := by
  rw [World.obstacle]
  change (if (!y.isOpen) = true then some StoreError.notOpen else
    if (!y.isReadable) = true then some StoreError.notADatabase else none) = none
  rw [h.isOpen, h.isReadable]
  rfl

theorem on_listAsked (h : p.Going made x y) (asked : Option Json) :
    (listAsked asked).on (p.host.worldOf y []) = (listing asked (y.data p.database),
      if finds asked (y.data p.database) then (p.host.worldOf y []).looked
      else p.host.worldOf y []) := by
  rw [h.database]
  exact Dataset.on_listAsked asked h.obstacle

theorem answer (h : p.Going made x y) (asked : Option Json) :
    p.answer asked = listing asked (y.data p.database) := by
  rw [Sharing.answer, session?, h.reader]
  exact congrArg Prod.fst (h.on_listAsked asked)

theorem writes (h : p.Going made x y) :
    (p.host.worldOf y []).session.writes (p.host.worldOf y []).database = false := by
  refine decide_eq_false ?_
  change ¬(p.host.database y.database).writer = some y.number
  rw [h.readerNumber]
  exact h.free

/-- Both go on after a deed of the writer. -/
theorem moved (h : p.Going made x y) {w : World} (hbecomes : (p.host.worldOf x []).Becomes w)
    {rest : Script Unit} (halong : rest.Along (Script.Commits made)
      (fun _ v => v.session.isOpen = true ∧ v.savepoints = none) w) :
    Going made ⟨p.host.afterwards w, p.writer, p.reader, rest⟩ w.session y ∧
      (p.host.afterwards w).database y.database = w.database := by
  have hx : p.host.session? x.number = some x := h.writerNumber ▸ h.writer
  have hframe : w.frame = (p.host.worldOf x []).frame := hbecomes.frame
  have hnumber : w.session.number = p.writer :=
    (congrArg (·.session.number) hframe).trans h.writerNumber
  have hafter : (p.host.afterwards w).database y.database = w.database :=
    h.shared ▸ database_afterwards_of_frame hx hframe
  refine ⟨?_, hafter⟩
  exact
    { writer := hnumber ▸ Host.session?_afterwards_self p.host w
      reader := (Host.session?_afterwards_of_ne p.host (hnumber ▸ h.apart.symm)).trans h.reader
      writerNumber := hnumber
      readerNumber := h.readerNumber
      apart := h.apart
      shared := (congrArg (·.session.database) hframe).trans h.shared
      free := by
        rw [hafter]
        intro hfree
        have hne : p.reader ≠ (p.host.worldOf x []).session.number :=
          fun hne => h.apart (h.writerNumber.symm.trans hne.symm)
        refine h.free ?_
        rw [← h.shared]
        exact hbecomes.writer hne hfree
      journaled := by
        have hkept : w.database.journaled = (p.host.database x.database).journaled :=
          congrArg (·.database.journaled) hframe
        rw [hafter, hkept, h.shared]
        exact h.journaled
      isOpen := h.isOpen
      isReadable := h.isReadable
      along := by
        rw [worldOf_afterwards_of_frame hx hframe]
        exact halong.logged (fun _ _ _ hv => hv) [] }

/-- The writer's next statement makes no commit that `made` does not allow. -/
theorem write (h : p.Going made x y) :
    (∃ x', p.write.Going made x' y) ∧ Script.Commits made p.database p.write.database := by
  obtain ⟨host, n, m, rest⟩ := p
  cases rest with
  | ends r => exact ⟨⟨x, h⟩, .inl (.refl _)⟩
  | next deed rest =>
    have hbecomes := deed.becomes_on (host.worldOf x [])
    obtain ⟨hcommits, halong⟩ := h.along
    rcases hon : deed.act.on (host.worldOf x []) with ⟨r, w⟩
    rw [hon] at hbecomes hcommits halong
    have hwrite : (Sharing.mk host n m (.next deed rest)).write =
        ⟨host.afterwards w, n, m, rest r⟩ := by
      have hwriter : host.session? n = some x := h.writer
      have hrun : host.run x [] deed.act = ((r, w.journal), host.afterwards w) := by
        rw [Host.run_eq, hon]
      simp only [Sharing.write, hwriter, hrun]
    obtain ⟨hgoing, hafter⟩ := h.moved hbecomes halong
    rw [hwrite, hgoing.database, h.database]
    refine ⟨⟨_, hgoing⟩, ?_⟩
    rw [hafter, ← h.shared]
    exact hcommits

/-- A step of the reader that only glances at the database. -/
theorem acted {α : Type} {act : Act α} (h : p.Going made x y)
    (hglances : Glances (p.host.worldOf y []) (act.on (p.host.worldOf y [])).2) :
    Going made { p with host := p.host.acted p.reader act } x
      (act.on (p.host.worldOf y [])).2.session ∧
    Sharing.database { p with host := p.host.acted p.reader act } = p.database := by
  have hy : p.host.session? y.number = some y := h.readerNumber ▸ h.reader
  have hkept := hglances.database h.writes
  have hframe := hglances.frame
  have hacted : p.host.acted p.reader act =
      p.host.afterwards (act.on (p.host.worldOf y [])).2 := by
    rw [Host.acted, h.reader]
    rfl
  generalize (act.on (p.host.worldOf y [])).2 = w at hkept hframe hacted ⊢
  have hnumber : w.session.number = p.reader :=
    (congrArg (·.session.number) hframe).trans h.readerNumber
  have hdatabase : w.session.database = y.database := congrArg (·.session.database) hframe
  have hafter : (p.host.afterwards w).database y.database = p.host.database y.database :=
    (database_afterwards_of_frame hy hframe).trans hkept
  rw [hacted]
  have hgoing : Going made { p with host := p.host.afterwards w } x w.session :=
    { writer := (Host.session?_afterwards_of_ne p.host (hnumber ▸ h.apart)).trans h.writer
      reader := hnumber ▸ Host.session?_afterwards_self p.host w
      writerNumber := h.writerNumber
      readerNumber := hnumber
      apart := h.apart
      shared := h.shared.trans hdatabase.symm
      free := by
        rw [hdatabase, hafter]
        exact h.free
      journaled := by
        rw [hdatabase, hafter]
        exact h.journaled
      isOpen := (congrArg (·.session.isOpen) hframe).trans h.isOpen
      isReadable := (congrArg (·.session.isReadable) hframe).trans h.isReadable
      along := by
        rw [worldOf_afterwards_of_database hy hframe hkept h.shared]
        exact h.along }
  refine ⟨hgoing, ?_⟩
  rw [hgoing.database, h.database, hdatabase]
  exact hafter

end Going
end Sharing
end FilmReport
