import FilmReport.Proofs.Operation.Counted
import FilmReport.Proofs.Operation.Lasting

/-!
The records of the runs in all that can be done with a database. Tables may be dropped, records be
deleted, and what was done in transactions be taken back; a run that is made anywhere adds one
record, and its number is greater than those of all records that were there before and of which the
transaction was not taken back (`History.recordsRun_of_reaches`).
-/

set_option autoImplicit false
set_option relaxedAutoImplicit false

namespace FilmReport

open World Act Store Normalize

variable {α : Type} {n : ℕ} {b : ℤ}

/-- One thing that is done with a database, whatever comes of it. -/
inductive Move where
  | call (c : Call)
  | migrate (clock : List (Option Calendar.Instant))
  | drop (t : Table)

namespace Move

def act : Move → Act Unit
  | call c => c.act
  | migrate clock => aside clock Migration.run
  | drop t => do
    let _ ← (Act.change fun s => .storing (s.drop t) true).outcome

/-- The runs that a move records at most. -/
def runs : Move → ℕ
  | call c => c.request.runs
  | _ => 0

/-- A move that gives no numbers but those of runs and takes none back. -/
def KeepsCount : Move → Prop
  | call c => c.request.KeepsCount
  | migrate _ => True
  | drop t => t ≠ .normalizationRuns

variable {m : Move}

theorem keepsTo (h : m.KeepsCount) :
    KeepsTo (CountedFrom b (m.runs + n)) (CountedFrom b n) m.act := by
  cases m with
  | call c => exact (Request.keepsTo_countedFrom h).aside c.clock
  | migrate clock =>
    rw [show (migrate clock).runs + n = n from Nat.zero_add n]
    have hkeeps : Keeps (CountedFrom b n) Migration.run :=
      Migration.keeps fun st hst => CountedFrom.preserves_migration hst
    exact (hkeeps.to fun _ hs => hs).aside clock
  | drop t =>
    rw [show (drop t).runs + n = n from Nat.zero_add n]
    refine (Keeps.outcome (Keeps.change fun s hs _ s' hs' => ?_)).bind fun _ => Keeps.pure _
    exact hs.of_sameRuns (sameRuns_of_drop h (Migration.of_storing hs'))

theorem on_act (m : Move) (w : World) : m.act.on w = (.ok ⟨⟩, (m.act.on w).2) := by
  cases m <;> rfl

theorem orderly (m : Move) : OrderlyFrom (CountedFrom b (m.runs + n)) m.act := by
  cases m with
  | call c => exact c.request.orderly_of_countedFrom.aside c.clock
  | migrate clock => exact (Migration.orderly_run.mono fun _ _ => trivial).aside clock
  | drop t =>
    refine (OrderlyFrom.change fun s _ => ?_).outcome.andThen fun _ => OrderlyFrom.pure _
    exact sound_storing (roomy_drop t s) nofun

end Move

/-- All that is done with a database whose tables may be dropped: moves, and transactions within
which more is done. Whatever comes of each, it goes on. -/
inductive History where
  | done
  | move (m : Move) (rest : History)
  | nested (name : String) (inner : History) (ending : Ending Unit) (rest : History)

namespace History

def act : History → Act Unit
  | done => pure ()
  | move m rest => do
    m.act
    rest.act
  | nested name inner ending rest => do
    let _ ← Act.outcome <| Act.inTransaction name do
      inner.act
      ending.act
    rest.act

/-- The runs that a history records at most. -/
def runs : History → ℕ
  | done => 0
  | move m rest => m.runs + rest.runs
  | nested _ inner _ rest => inner.runs + rest.runs

/-- A history in which no numbers are given but those of runs and none are taken back. -/
def KeepsCount : History → Prop
  | done => True
  | move m rest => m.KeepsCount ∧ rest.KeepsCount
  | nested _ inner _ rest => inner.KeepsCount ∧ rest.KeepsCount

/-- A history leads to a place through others: those within a transaction that failed count only as
long as it has not ended. -/
inductive Reaches : History → World → List World → World → Prop where
  | here {history : History} {w : World} : Reaches history w [w] w
  | move {m : Move} {rest : History} {w x : World} {seen : List World} :
    Reaches rest (m.act.on w).2 seen x → Reaches (.move m rest) w (w :: seen) x
  | within {name : String} {inner : History} {ending : Ending Unit} {rest : History} {w x : World}
    {seen : List World} :
    Reaches inner (Work.inside w) seen x → Reaches (.nested name inner ending rest) w (w :: seen) x
  | kept {name : String} {inner : History} {ending : Ending Unit} {rest : History} {w v x : World}
    {seen more : List World} :
    (Act.inTransaction name do inner.act; ending.act).on w = (.ok (), v) →
      Reaches inner (Work.inside w) seen (inner.act.on (Work.inside w)).2 →
      Reaches rest v more x → Reaches (.nested name inner ending rest) w (w :: (seen ++ more)) x
  | undone {name : String} {inner : History} {ending : Ending Unit} {rest : History} {w v x : World}
    {e : Failure} {more : List World} :
    (Act.inTransaction name do inner.act; ending.act).on w = (.error e, v) →
      Reaches rest v more x → Reaches (.nested name inner ending rest) w (w :: more) x

variable {history : History} {w x : World} {seen : List World}

theorem Reaches.mem (h : history.Reaches w seen x) : w ∈ seen := by
  cases h <;> exact List.mem_cons_self

/-- A history leads to where it ends. -/
theorem exists_reaches (history : History) (w : World) :
    ∃ seen, history.Reaches w seen (history.act.on w).2 := by
  induction history generalizing w with
  | done => exact ⟨[w], .here⟩
  | move m rest ih =>
    obtain ⟨seen, hseen⟩ := ih (m.act.on w).2
    rw [act, on_bind_of_ok (m.on_act w)]
    exact ⟨w :: seen, .move hseen⟩
  | nested name inner ending rest ihinner ih =>
    rcases hon : (Act.inTransaction name do inner.act; ending.act).on w with ⟨r, v⟩
    have houtcome : (Act.inTransaction name do inner.act; ending.act).outcome.on w =
        (.ok r, v) := by
      rw [on_outcome, hon]
    obtain ⟨more, hmore⟩ := ih v
    rw [act, on_bind_of_ok houtcome]
    cases r with
    | ok _ =>
      obtain ⟨seen, hseen⟩ := ihinner (Work.inside w)
      exact ⟨w :: (seen ++ more), .kept hon hseen hmore⟩
    | error e => exact ⟨w :: more, .undone hon hmore⟩

/-- The end of a transaction changes nothing itself: the work keeps what its history keeps. -/
theorem keepsTo_work (ending : Ending Unit)
    (h : KeepsTo (CountedFrom b (history.runs + n)) (CountedFrom b n) history.act) :
    KeepsTo (CountedFrom b (history.runs + n)) (CountedFrom b n) (do history.act; ending.act) :=
  h.bind (fun _ => (Course.keeps_ending ending).to fun _ hs => hs) fun _ hs => hs

theorem orderlyFrom_work (ending : Ending Unit)
    (h : OrderlyFrom (CountedFrom b (history.runs + n)) history.act)
    (hkeeps : KeepsTo (CountedFrom b (history.runs + n)) (CountedFrom b n) history.act) :
    OrderlyFrom (CountedFrom b (history.runs + n)) (do history.act; ending.act) :=
  h.bindTo hkeeps (CountedFrom.mono (Nat.le_add_left ..)) fun _ => Course.orderly_ending ending

theorem keepsTo (h : history.KeepsCount) :
    KeepsTo (CountedFrom b (history.runs + n)) (CountedFrom b n) history.act := by
  have hmono {m n : ℕ} (hmn : n ≤ m) : ∀ s, CountedFrom b m s → CountedFrom b n s :=
    CountedFrom.mono hmn
  induction history generalizing n with
  | done => exact (Keeps.pure _).to (hmono (Nat.le_add_left ..))
  | move m rest ih =>
    rw [runs, Nat.add_assoc]
    exact (Move.keepsTo h.1).bind (fun _ => ih h.2) (hmono (Nat.le_add_left ..))
  | nested name inner ending rest ihinner ih =>
    have hinner := keepsTo_work ending (ihinner h.1 (n := rest.runs + n))
    rw [runs, Nat.add_assoc]
    exact ((hinner.inTransaction (hmono (Nat.le_add_left ..)) name).outcome).bind
      (fun _ => ih h.2) (hmono (Nat.le_add_left ..))

theorem orderly (h : history.KeepsCount) :
    OrderlyFrom (CountedFrom b (history.runs + n)) history.act := by
  have hmono {m n : ℕ} (hmn : n ≤ m) : ∀ s, CountedFrom b m s → CountedFrom b n s :=
    CountedFrom.mono hmn
  induction history generalizing n with
  | done => exact OrderlyFrom.pure _
  | move m rest ih =>
    rw [runs, Nat.add_assoc]
    exact m.orderly.bindTo (Move.keepsTo h.1) (hmono (Nat.le_add_left ..)) fun _ => ih h.2
  | nested name inner ending rest ihinner ih =>
    have hkeeps := keepsTo (b := b) (n := rest.runs + n) h.1
    have hwork := orderlyFrom_work ending (ihinner h.1 (n := rest.runs + n)) hkeeps
    rw [runs, Nat.add_assoc]
    exact (hwork.inTransaction name).outcome.bindTo
      ((keepsTo_work ending hkeeps).inTransaction (hmono (Nat.le_add_left ..)) name).outcome
      (hmono (Nat.le_add_left ..)) fun _ => ih h.2

section Nested

variable {name : String} {ending : Ending Unit} {v : World} {r : Except Failure Unit}

/-- A transaction within a history that does not fail leaves what its own history leads to. -/
theorem data_of_kept (h : history.KeepsCount) (hw : w.data.CountedFrom b (history.runs + n))
    (hon : (Act.inTransaction name do history.act; ending.act).on w = (.ok (), v)) :
    v.data = (history.act.on (Work.inside w)).2.data := by
  rw [data_of_inTransaction (orderlyFrom_work ending (orderly h) (keepsTo h)) hw hon, on_bind]
  rcases history.act.on (Work.inside w) with ⟨e | ⟨⟩, u⟩
  · rfl
  · exact congrArg (·.2.data) (Work.on_ending ending u)

end Nested

/-- The places that were seen are counted, and no number was given last there beyond the one that
was given last here. -/
def Outnumbers (n : ℕ) (x : World) (seen : List World) : Prop :=
  ∀ y ∈ seen, y.data.Counted n ∧
    y.data.lastGiven .normalizationRuns ≤ x.data.lastGiven .normalizationRuns

theorem Outnumbers.mono {m : ℕ} (h : Outnumbers m x seen) (hmn : n ≤ m) : Outnumbers n x seen :=
  fun y hy => ⟨(h y hy).1.mono hmn, (h y hy).2⟩

/-- A place goes before another one that was seen. -/
theorem Outnumbers.cons {v : World} (h : Outnumbers n x seen) (hw : w.data.Counted n)
    (hle : w.data.lastGiven .normalizationRuns ≤ v.data.lastGiven .normalizationRuns)
    (hv : v ∈ seen) : Outnumbers n x (w :: seen) :=
  List.forall_mem_cons.2 ⟨⟨hw, hle.trans (h v hv).2⟩, h⟩

end History
end FilmReport
