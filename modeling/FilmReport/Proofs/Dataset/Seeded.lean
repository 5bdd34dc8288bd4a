import FilmReport.Migration
import FilmReport.Proofs.Dataset.Grammar
import FilmReport.Proofs.Operation.Orderly
import FilmReport.Proofs.Query.Execution
import FilmReport.Proofs.Session.Computes
import FilmReport.Proofs.Store.Measured
import FilmReport.Proofs.Store.Insert
import FilmReport.Proofs.Session.Reports
import FilmReport.Proofs.Store.Referring

/-!
The tables after a seeding. The rows of an accepted dataset keep its bounds in the store, and all
tables that were there before are there after. In a freshly migrated store all tables are there, and
those of the dataset have no rows; migrations of nothing make one (`isFresh_of_on_run`).
-/

set_option autoImplicit false
set_option relaxedAutoImplicit false

namespace FilmReport

open Act Store

/-- What is known of the rows of a seeded table. -/
def Table.IsBoundedRow : (t : Table) → t.Row → Prop
  | .movie, m => MovieRow.IsBounded m
  | .ratings, r => RatingRow.IsBounded r
  | _, _ => True

namespace Migration

theorem rowsMeet_createAll {P : (t : Table) → t.Row → Prop} (tables : List Table) {s : Store}
    (h : s.RowsMeet P) : (createAll tables s).RowsMeet P := by
  induction tables generalizing s with
  | nil => exact h
  | cons t rest ih => exact ih (h.create t)

theorem rowsMeet_apply {P : (t : Table) → t.Row → Prop} {m : Migration} {s s' : Store}
    (h : s.RowsMeet P) (happly : m.apply s = .ok s') : s'.RowsMeet P := by
  cases m with
  | dataset => exact Except.ok.inj happly ▸ rowsMeet_createAll _ h
  | normalization =>
    have hamount : ({ s with hasAmount := true } : Store).RowsMeet P :=
      fun t => by cases t <;> exact h _
    rw [apply, addAmount] at happly
    cases hrows : s.rows? .movie with
    | error e =>
      rw [hrows] at happly
      cases happly
    | ok rows =>
      rw [hrows, ok_bind] at happly
      split at happly
      · cases happly
      · exact Except.ok.inj happly ▸ rowsMeet_createAll _ hamount

theorem roomy_apply (m : Migration) (s : Store) : Roomy (m.apply s) := by
  cases m with
  | dataset => exact roomy_ok _
  | normalization =>
    refine roomy_map (roomy_bind (roomy_map (roomy_numbered? s .movie) _) fun rows => ?_) _
    split
    · exact roomy_error (by simp)
    · exact roomy_pure _

theorem sound_apply (m : Migration) (s : Store) : (Effect.storing (m.apply s) true).Sound s :=
  sound_storing (roomy_apply m s) fun hwrote => Bool.noConfusion hwrote

theorem sound_record (row : MigrationRow) (s : Store) :
    (Effect.storing (s.insert .schemaMigrations .refuse row) true).Sound s :=
  sound_storing (roomy_insert _ _ _ s) fun hwrote => Bool.noConfusion hwrote

theorem of_storing {r : Except StoreError Store} {wrote : Bool} {u : Unit} {s' : Store}
    (h : (Effect.storing r wrote).result = .ok (u, s')) : r = .ok s' := by
  cases r with
  | error e => cases h
  | ok s => exact congrArg _ (congrArg Prod.snd (Except.ok.inj h))

theorem orderly_perform (m : Migration) : Orderly (perform m) := by
  refine OrderlyFrom.prepareTransactions.andThen fun _ => OrderlyFrom.transact ?_
  refine (OrderlyFrom.change fun s _ => sound_apply m s).andThen fun _ => ?_
  exact OrderlyFrom.readClock.andThen fun now => OrderlyFrom.change fun s _ => sound_record _ s

theorem orderly_recorded : Orderly recorded := by
  refine (OrderlyFrom.look _).andThen fun present => ?_
  cases present with
  | true => exact OrderlyFrom.look _
  | false =>
    exact (OrderlyFrom.change fun s _ => sound_done _ _ s).andThen fun _ => OrderlyFrom.look _

theorem orderly_run : Orderly Migration.run := by
  have hmissing (names : List String) (steps : List Migration) (done : Applied) :
      Orderly (applyMissing names done steps) := by
    induction steps generalizing done with
    | nil => exact OrderlyFrom.pure _
    | cons m rest ih =>
      rw [applyMissing]
      split
      · exact ih _
      · exact ((orderly_perform m).reporting _).andThen fun _ => ih _
  exact OrderlyFrom.andThen (orderly_recorded.reporting _) fun names => hmissing _ _ _

/-- Where a step leads, from what it makes and from what the record of it leaves. -/
theorem leads_perform {m : Migration} {P Q R : Store → Prop}
    (happly : ∀ s s', P s → m.apply s = .ok s' → Q s')
    (hrecord : ∀ now s s', Q s →
      s.insert .schemaMigrations .refuse ⟨m.id, m.name, now⟩ = .ok s' → R s') :
    Leads P (perform m) R := by
  refine Leads.bind (Leads.of_data data_prepareTransactions) fun _ => Leads.transact ?_ ?_
  · refine (OrderlyFrom.change fun s _ => sound_apply m s).andThen fun _ => ?_
    refine OrderlyFrom.readClock.andThen fun now => ?_
    exact OrderlyFrom.change fun s _ => sound_record _ s
  · refine Leads.bind (Q := Q) ?_ fun _ => ?_
    · exact Leads.change (sound_apply m) fun s a s' h hs' => happly s s' h (of_storing hs')
    · refine Leads.bind (Leads.of_data data_readClock) fun now => Leads.change (sound_record _) ?_
      exact fun s a s' h hs' => hrecord _ s s' h (of_storing hs')

theorem leads_recorded :
    Leads (RowsMeet Table.IsBoundedRow) recorded (RowsMeet Table.IsBoundedRow) := by
  refine Leads.bind (Leads.look _) fun present => ?_
  cases present with
  | true => exact Leads.look _
  | false =>
    refine Leads.bind (Q := RowsMeet Table.IsBoundedRow) ?_ fun _ => Leads.look _
    refine Leads.change (fun s => sound_done _ _ s) fun s a s' h hs' => ?_
    obtain ⟨-, rfl⟩ := Prod.mk.inj (Except.ok.inj hs')
    exact h.create _

theorem leads_applyMissing (names : List String) : ∀ (steps : List Migration) (done : Applied),
    Leads (RowsMeet Table.IsBoundedRow) (applyMissing names done steps)
      (RowsMeet Table.IsBoundedRow)
  | [], done => Leads.pure _
  | m :: rest, done => by
    rw [applyMissing]
    split
    · exact leads_applyMissing names rest _
    · refine Leads.bind (Leads.reporting (leads_perform (Q := RowsMeet Table.IsBoundedRow) ?_ ?_) _)
        fun _ => leads_applyMissing names rest _
      · exact fun s s' h happly => rowsMeet_apply h happly
      · exact fun row s s' h hrecord =>
          h.insert (t := .schemaMigrations) trivial (by simp) hrecord

/-- Migrations write no rows of movies or ratings. -/
theorem leads_run : Leads (RowsMeet Table.IsBoundedRow) run (RowsMeet Table.IsBoundedRow) :=
  Leads.bind (Leads.reporting leads_recorded _) fun names => leads_applyMissing names _ _

end Migration

namespace Dataset

open Store

theorem ofJson?_ofInt (n : ℤ) : Cell.ofJson? (.ofInt n) = some (.real (.ofInt n)) := by
  change Cell.ofJson? (.number (.ofInt n)) = _
  cases hn : Binary64.ofInt n with
  | finite q => rfl
  | infinite negative => rfl
  | nan => exact absurd hn (Binary64.round_ne_nan n)

/-- The number that is written for an optional integer. -/
def cellOf (n : Option ℤ) : Cell :=
  n.elim .null fun n => .real (.ofInt n)

theorem isWhole_cellOf {field : Option ℤ} (h : ∀ n, field = some n → n.natAbs < 2 ^ 53) :
    (cellOf field).toInteger.IsWhole := by
  cases field with
  | none => exact Or.inl rfl
  | some n => exact Or.inr ⟨n, Cell.toInteger_ofInt (h n rfl), (h n rfl).le⟩

theorem isCount_cellOf {field : Option ℤ} (h : ∀ n, field = some n → 0 ≤ n ∧ n < 2 ^ 53) :
    (cellOf field).toInteger.IsCount := by
  cases field with
  | none => exact Or.inl rfl
  | some n =>
    obtain ⟨hn, hlt⟩ := h n rfl
    exact Or.inr ⟨n, Cell.toInteger_ofInt (by omega), hn, hlt.le⟩

theorem ofJson?_ofOption {α : Type} {f : α → Json} {g : α → Cell}
    (h : ∀ a, Cell.ofJson? (f a) = some (g a)) (a : Option α) :
    Cell.ofJson? (Json.ofOption f a) = some (a.elim .null g) := by
  cases a with
  | none => rfl
  | some a => exact h a

theorem bind_movie (m : Movie) :
    Store.bind RowKind.movies.parameters (.object m.fields) =
      .ok [.text m.id, .text m.title, cellOf m.year, m.datePublished.elim .null .text,
        cellOf m.duration, m.country.elim .null .text, m.grossIncome.elim .null .text,
        m.languages.elim .null .text, m.productionCompany.elim .null .text] := by
  have hint := ofJson?_ofOption ofJson?_ofInt
  have htext := ofJson?_ofOption (f := Json.string) fun s => rfl
  have hfields : m.fields =
      [("id", .string m.id), ("title", .string m.title), ("year", .ofOption .ofInt m.year),
       ("datePublished", .ofOption .string m.datePublished),
       ("duration", .ofOption .ofInt m.duration), ("country", .ofOption .string m.country),
       ("worldwideGrossIncome", .ofOption .string m.grossIncome),
       ("languages", .ofOption .string m.languages),
       ("productionCompany", .ofOption .string m.productionCompany)] := rfl
  simp only [Store.bind, hfields, RowKind.movies, List.mapM_cons, bindOne, Fields.get?_cons,
    ↓reduceIte, String.reduceEq, hint, htext]
  rfl

theorem bind_rating (r : Rating) :
    Store.bind RowKind.ratings.parameters (.object r.fields) =
      .ok [.text r.movieId, r.avgRating.elim .null fun q => .real (.finite q),
        cellOf r.totalVotes, cellOf r.medianRating] := by
  have hint := ofJson?_ofOption ofJson?_ofInt
  have hnumber := ofJson?_ofOption (f := fun q => Json.number (.finite q)) fun n => rfl
  have hfields : r.fields =
      [("movieId", .string r.movieId),
       ("avgRating", Json.ofOption (fun q => .number (.finite q)) r.avgRating),
       ("totalVotes", .ofOption .ofInt r.totalVotes),
       ("medianRating", .ofOption .ofInt r.medianRating)] := rfl
  simp only [Store.bind, hfields, RowKind.ratings, List.mapM_cons, bindOne, Fields.get?_cons,
    ↓reduceIte, String.reduceEq, hint, hnumber]
  rfl

/-- The row of cells that a movie is. -/
theorem isBounded_of_row_movie {m : Movie} (hm : m.Keeps) {cells : List Cell} {s : Store}
    {row : MovieRow}
    (hcells : Store.bind RowKind.movies.parameters (.object m.fields) = .ok cells)
    (hrow : RowKind.movies.row cells s = .ok row) : row.IsBounded := by
  rw [bind_movie] at hcells
  obtain rfl := Except.ok.inj hcells
  obtain ⟨rows, -, hrow⟩ := exists_of_bind hrow
  obtain ⟨⟨⟩, -, hrow⟩ := exists_of_bind hrow
  obtain rfl := Except.ok.inj hrow
  exact ⟨isWhole_cellOf hm.year, (isCount_cellOf hm.duration).isWhole⟩

theorem isBounded_of_row_rating {r : Rating} (hr : r.Keeps) {cells : List Cell} {s : Store}
    {row : RatingRow}
    (hcells : Store.bind RowKind.ratings.parameters (.object r.fields) = .ok cells)
    (hrow : RowKind.ratings.row cells s = .ok row) : row.IsBounded := by
  rw [bind_rating] at hcells
  obtain rfl := Except.ok.inj hcells
  obtain ⟨rows, -, hrow⟩ := exists_of_bind hrow
  obtain ⟨⟨⟩, -, hrow⟩ := exists_of_bind hrow
  obtain rfl := Except.ok.inj hrow
  have hmedian : (cellOf r.medianRating).toInteger.IsWhole :=
    (isCount_cellOf fun n hn => ⟨(hr.median n hn).1, by have := (hr.median n hn).2; omega⟩).isWhole
  refine ⟨?_, isCount_cellOf hr.votes, hmedian⟩
  cases havg : r.avgRating with
  | none => exact Or.inl rfl
  | some q => exact Or.inr ⟨q, rfl, hr.average q havg⟩

/-- The tables of the queries are there, and their rows have the bounds of a dataset. -/
structure IsSeeded (s : Store) : Prop where
  rows : s.RowsMeet Table.IsBoundedRow
  tables : ∀ t ∈ queried, s.has t = true
  hasAmount : s.hasAmount = true

theorem has_of_forM_rows? {s : Store} : ∀ {tables : List Table},
    (tables.forM fun t => (s.rows? t).map fun _ => ()) = .ok () → ∀ t ∈ tables, s.has t = true
  | [], _ => List.forall_mem_nil _
  | t :: rest, h => by
    obtain ⟨⟨⟩, hfirst, hrest⟩ := exists_of_bind h
    replace hfirst : (s.rows? t).map (fun _ => ()) = .ok () := hfirst
    rw [rows?_eq] at hfirst
    rw [List.forall_mem_cons]
    refine ⟨?_, has_of_forM_rows? hrest⟩
    by_contra hhas
    rw [if_neg hhas] at hfirst
    cases hfirst

/-- Statements that can be made ready find all tables of the queries. -/
theorem tables_of_ready {s : Store} (h : ready s = .ok ()) :
    (∀ t ∈ queried, s.has t = true) ∧ s.hasAmount = true := by
  obtain ⟨⟨⟩, hneeded, h⟩ := exists_of_bind h
  dsimp only at h
  split at h
  · next hamount =>
    have hlast := has_of_forM_rows? h
    exact ⟨List.forall_mem_append.2 ⟨has_of_forM_rows? hneeded, hlast⟩, hamount⟩
  · cases h

theorem leads_prepare : Leads (RowsMeet Table.IsBoundedRow) prepare IsSeeded := by
  refine Leads.bind (Q := IsSeeded) ?_ fun _ => Leads.of_data data_prepareTransactions
  intro w w' a hw hon
  rw [on_peek] at hon
  cases hobstacle : w.obstacle with
  | some e =>
    rw [hobstacle] at hon
    cases (Prod.mk.inj hon).1
  | none =>
    cases hready : ready w.data with
    | error e =>
      rw [hobstacle, hready] at hon
      cases (Prod.mk.inj hon).1
    | ok u =>
      rw [hobstacle, hready] at hon
      obtain ⟨-, rfl⟩ := Prod.mk.inj hon
      obtain ⟨htables, hamount⟩ := tables_of_ready hready
      exact ⟨hw, htables, hamount⟩

theorem IsSeeded.insert {s s' : Store} {t : Table} (hs : IsSeeded s) {conflict : Conflict t.Row}
    {row : t.Row} (hrow : t.IsBoundedRow row)
    (hmerge : ∀ f, conflict = .merge f → ∀ old, t.IsBoundedRow (f old row))
    (h : s.insert t conflict row = .ok s') : IsSeeded s' where
  rows := hs.rows.insert hrow (fun f hf old _ => hmerge f hf old) h
  tables u hu := has_of_insert (hs.tables u hu) h
  hasAmount := (hasAmount_of_insert h).trans hs.hasAmount

/-- A kind of row that writes bounded rows of a value. -/
structure RowKind.Bounds (kind : RowKind) (given : Json) : Prop where
  row : ∀ {cells s row}, Store.bind kind.parameters given = .ok cells →
    kind.row cells s = .ok row → kind.table.IsBoundedRow row
  merge : ∀ {f row}, kind.conflict = .merge f → kind.table.IsBoundedRow row →
    ∀ old, kind.table.IsBoundedRow (f old row)

theorem bounds_movie {m : Movie} (hm : m.Keeps) : RowKind.movies.Bounds (.object m.fields) where
  row hcells hrow := isBounded_of_row_movie hm hcells hrow
  merge := by
    intro f row hf hrow old
    obtain rfl := Conflict.merge.inj hf
    exact ⟨hrow.year, hrow.duration⟩

theorem bounds_rating {r : Rating} (hr : r.Keeps) :
    RowKind.ratings.Bounds (.object r.fields) where
  row hcells hrow := isBounded_of_row_rating hr hcells hrow
  merge := by
    intro f row hf hrow old
    obtain rfl := Conflict.merge.inj hf
    exact ⟨hrow.average, hrow.votes, hrow.median⟩

theorem bounds_of_forall (kind : RowKind) (h : ∀ row, kind.table.IsBoundedRow row)
    (given : Json) : kind.Bounds given where
  row _ _ := h _
  merge _ _ _ := h _

theorem leads_writeRow {kind : RowKind} {given : Json} (hkind : kind.Bounds given) :
    Leads IsSeeded (writeRow kind given) IsSeeded := by
  rw [writeRow]
  cases hcells : Store.bind kind.parameters given with
  | error e =>
    intro w w' a hw hon
    cases (Prod.mk.inj hon).1
  | ok cells =>
    refine Leads.change (sound_insert kind cells) fun s u s' hs hs' => ?_
    rw [RowKind.insert] at hs'
    cases hrow : kind.row cells s with
    | error e =>
      rw [hrow] at hs'
      cases hs'
    | ok row =>
      rw [hrow] at hs'
      have hbounded := hkind.row hcells hrow
      exact hs.insert hbounded (fun f hf => hkind.merge hf hbounded)
        (Migration.of_storing hs')

theorem leads_write {kind : RowKind} {inputs : List Json}
    (h : ∀ given ∈ inputs, kind.Bounds given) : Leads IsSeeded (write kind inputs) IsSeeded :=
  Leads.reporting (Leads.transact (orderly_writeRows kind inputs)
    (Leads.forM fun given hgiven => leads_writeRow (h given hgiven))) _

/-- Seeding a dataset that keeps its bounds leaves bounded rows. -/
theorem leads_seed {d : Dataset} (hmovies : ∀ m ∈ d.movies, m.Keeps)
    (hratings : ∀ r ∈ d.ratings, r.Keeps) :
    Leads (RowsMeet Table.IsBoundedRow) (seed d) IsSeeded := by
  refine Leads.bind leads_prepare fun _ => ?_
  refine Leads.inTransaction ?_ ?_ "dataset.seed"
  · refine (OrderlyFrom.forM (fun item => ?_) _).andThen fun _ => OrderlyFrom.pure _
    exact (whole_writeCounted item.1 _ _).orderly
  · refine Leads.bind (Leads.forM ?_) fun _ => Leads.pure _
    have hwrites {kind : RowKind} {rows : List Fields}
        (h : ∀ fields ∈ rows, kind.Bounds (.object fields)) :
        Leads IsSeeded (write kind (rows.map Json.object)) IsSeeded :=
      leads_write (List.forall_mem_map.2 h)
    simp only [rowsOf, List.forall_mem_cons]
    refine ⟨hwrites ?_, hwrites ?_, hwrites ?_, hwrites ?_, hwrites ?_, hwrites ?_,
      List.forall_mem_nil _⟩
    · exact List.forall_mem_map.2 fun m hm => bounds_movie (hmovies m hm)
    · exact fun fields _ => bounds_of_forall .names (fun _ => trivial) _
    · exact fun fields _ => bounds_of_forall .genres (fun _ => trivial) _
    · exact fun fields _ => bounds_of_forall .directings (fun _ => trivial) _
    · exact fun fields _ => bounds_of_forall .castings (fun _ => trivial) _
    · exact List.forall_mem_map.2 fun r hr => bounds_rating (hratings r hr)

end Dataset
/-- A store after all migrations in which nothing was written to the tables of the dataset. -/
structure Store.IsFresh (s : Store) : Prop where
  migrated : s.IsMigrated
  rows : ∀ t ∈ Migration.datasetTables, s.rowsOf t = []

namespace Migration

variable {s base base' : Store}

/-- A store that keeps its keys, its conditions and its references, and is another one but for the
record of the steps. -/
def IsRecorded (base s : Store) : Prop :=
  s.Consistent ∧ ∃ steps, s = { base with schemaMigrations := some steps }

theorem IsRecorded.insert (h : IsRecorded base s) {row : MigrationRow} {s' : Store}
    (hinsert : s.insert .schemaMigrations .refuse row = .ok s') : IsRecorded base s' := by
  obtain ⟨hconsistent, steps, rfl⟩ := h
  obtain ⟨steps', rfl, -⟩ := exists_of_insert hinsert
  exact ⟨hconsistent.insert (fun _ hf => by cases hf) hinsert, steps', rfl⟩

/-- A step leads from one store to another whatever was recorded before it. -/
theorem leads_perform_isRecorded {m : Migration}
    (h : ∀ steps, m.apply { base with schemaMigrations := some steps } =
      .ok { base' with schemaMigrations := some steps })
    (hrows : ∀ t, base'.rowsOf t = base.rowsOf t) :
    Leads (IsRecorded base) (perform m) (IsRecorded base') := by
  refine leads_perform (Q := IsRecorded base') ?_ fun row s s' hs hinsert => hs.insert hinsert
  rintro _ s' ⟨hconsistent, steps, rfl⟩ happly
  obtain rfl := Except.ok.inj ((h steps).symm.trans happly)
  refine ⟨hconsistent.of_rowsOf fun t _ => ?_, steps, rfl⟩
  have hsteps : ∀ b : Store, t ≠ .schemaMigrations →
      ({ b with schemaMigrations := some steps } : Store).rowsOf t = b.rowsOf t := by
    intro b ht
    cases t <;> first | rfl | exact absurd rfl ht
  by_cases ht : t = .schemaMigrations
  · subst ht
    rfl
  · rw [hsteps base' ht, hsteps base ht, hrows]

/-- Where there was nothing, no step is recorded, and there is the table to record them. -/
theorem of_on_recorded {v u : World} {names : List String} (hv : v.Ready)
    (hempty : v.data = .empty) (h : recorded.on v = (.ok names, u)) :
    names = [] ∧ u.data = { Store.empty with schemaMigrations := some [] } := by
  obtain ⟨present, x, hpresent, h⟩ := on_bind_eq_ok.1 h
  obtain ⟨hhas, hx⟩ := (Computes.look _).of_on hv hpresent
  rw [hempty] at hhas hx
  obtain rfl := Except.ok.inj hhas
  have hready : x.Ready := ((OrderlyFrom.look _).continues_of_on hpresent).ready.2 hv
  obtain ⟨⟨⟩, t, hcreated, hnames, hu⟩ := ((Computes.change fun s => sound_done _ _ s).bind
    fun _ => Computes.look _).of_on hready h
  obtain ⟨-, rfl⟩ := Prod.mk.inj (Except.ok.inj hcreated)
  rw [hx] at hnames hu
  exact ⟨(Except.ok.inj hnames).symm, hu⟩

/-- Where there was nothing, migrations make a fresh store. -/
theorem isFresh_of_on_run {v w : World} {applied : Applied} (hv : v.Ready)
    (hempty : v.data = .empty) (h : Migration.run.on v = (.ok applied, w)) :
    w.Ready ∧ w.data.IsFresh := by
  refine ⟨(orderly_run.continues_of_on h).ready.2 hv, ?_⟩
  obtain ⟨names, u, hrecorded, hsteps⟩ := on_bind_eq_ok.1 h
  obtain ⟨rfl, hu⟩ := of_on_recorded hv hempty (on_reporting_eq_ok.1 hrecorded)
  have hstart : IsRecorded .empty u.data := by
    refine ⟨?_, [], hu⟩
    rw [hu]
    exact consistent_empty.of_rowsOf fun t _ => by cases t <;> rfl
  have hdataset : Leads (IsRecorded .empty) (perform .dataset)
      (IsRecorded (createAll datasetTables .empty)) :=
    leads_perform_isRecorded (fun steps => rfl) fun t => by cases t <;> rfl
  have hnormalization : Leads (IsRecorded (createAll datasetTables .empty))
      (perform .normalization) (IsRecorded blank) :=
    leads_perform_isRecorded (fun steps => rfl) fun t => by cases t <;> rfl
  have hmissing : Leads (IsRecorded .empty) (applyMissing [] ⟨[], []⟩ all) (IsRecorded blank) :=
    Leads.bind (Leads.reporting hdataset _) fun _ =>
      Leads.bind (Leads.reporting hnormalization _) fun _ => Leads.pure _
  obtain ⟨hconsistent, steps, hdata⟩ := hmissing hstart hsteps
  rw [hdata] at hconsistent ⊢
  exact ⟨⟨fun t => by cases t <;> rfl, rfl, hconsistent⟩, fun t ht => by
    simp only [datasetTables, List.mem_cons, List.not_mem_nil, or_false] at ht
    rcases ht with rfl | rfl | rfl | rfl | rfl | rfl <;> rfl⟩

end Migration
end FilmReport
