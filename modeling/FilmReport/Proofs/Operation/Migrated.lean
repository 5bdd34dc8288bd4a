import FilmReport.Proofs.Operation.Course
import FilmReport.Proofs.Session.Reports
import FilmReport.Proofs.Store.Applied

/-!
A call of the migrations where the first of them were applied. It goes through the others in their
order; whatever comes of it, those that it performed are applied and recorded and nothing is there
of the others (`Migration.ends_on_run`).
-/

set_option autoImplicit false
set_option relaxedAutoImplicit false

namespace FilmReport

open World Act Store

namespace Migration

variable {done rest : List Migration} {m : Migration} {w w' : World}

/-- What a step does within its transaction. -/
def work (m : Migration) : Act Unit := do
  Act.change fun s => .storing (m.apply s) true
  let now ← Act.readClock
  Act.change fun s => .storing (s.insert .schemaMigrations .refuse ⟨m.id, m.name, now⟩) true

theorem perform_eq (m : Migration) :
    perform m = (do Act.prepareTransactions; Act.transact m.work) :=
  rfl

theorem orderly_work (m : Migration) : Orderly m.work := by
  refine (OrderlyFrom.change fun s _ => sound_apply m s).andThen fun _ => ?_
  exact OrderlyFrom.readClock.andThen fun now => OrderlyFrom.change fun s _ => sound_record _ s

theorem whole_perform (m : Migration) : Whole (perform m) :=
  Whole.after OrderlyFrom.prepareTransactions data_prepareTransactions fun _ =>
    Whole.transact m.orderly_work

theorem reports_perform (m : Migration) : Reports (perform m) fun _ => False := by
  refine Reports.prepareTransactions.bind fun _ => Reports.transact ?_
  exact (Reports.change _).bind fun _ => Reports.readClock.bind fun now => Reports.change _

/-- A step that is performed is one more that was applied. -/
theorem migratedTo_of_on_perform (h : w.data.MigratedTo done) (hall : all = done ++ m :: rest)
    (hon : (perform m).on w = (.ok (), w')) :
    w'.data.MigratedTo (done ++ [m]) ∧ w.data.Retains w'.data := by
  have hleads : Leads (· = w.data) (perform m)
      fun s => s.MigratedTo (done ++ [m]) ∧ w.data.Retains s :=
    leads_perform (P := (· = w.data)) (Q := MigratedTo.Widened (done ++ [m]) w.data)
      (R := fun s => s.MigratedTo (done ++ [m]) ∧ w.data.Retains s)
      (fun s s' hs happly => h.widened hall (hs ▸ happly))
      fun now s s' hwidened hinsert => h.of_insert hwidened hinsert
  exact hleads rfl hon

/-- A step is performed where the steps before it were, rows can be written and the clock gives
instants. -/
theorem exists_on_perform (hready : w.Ready) (hticks : w.Ticks) (h : w.data.MigratedTo done)
    (hthere : w.data.has .schemaMigrations = true) (hall : all = done ++ m :: rest) :
    ∃ w', (perform m).on w = (.ok (), w') := by
  obtain ⟨u, hu⟩ : ∃ u, prepareTransactions.on w = (.ok (), u) :=
    ⟨_, on_prepareTransactions hready.isOpen⟩
  have hprepared : Continues w u := OrderlyFrom.prepareTransactions.continues_of_on hu
  have hdata : u.entered.data = w.data := by
    have hdata := data_prepareTransactions w
    rw [hu] at hdata
    exact (data_entered u).trans hdata
  have hentered : u.entered.Ready := (ready_entered u).2 (hprepared.ready.2 hready)
  have hclock : u.entered.clock = u.clock := by
    rw [entered]
    split <;> rfl
  have htime : u.entered.Ticks := by
    have hu := hprepared.ticks hticks
    rwa [Ticks, ← hclock] at hu
  obtain ⟨s₁, happly⟩ := h.exists_apply hall
  have hmade : (Effect.storing (m.apply u.entered.data) true).result = .ok ((), s₁) := by
    rw [hdata, happly]
    rfl
  obtain ⟨v₁, hon₁, hdata₁, hcontinues₁⟩ := (Computes.change (sound_apply m)).exists_on hentered
    hmade
  obtain ⟨now, v₂, hon₂, hdata₂, hcontinues₂⟩ := exists_on_readClock (hcontinues₁.ticks htime)
  obtain ⟨s₃, hinsert⟩ := h.exists_insert hall (h.widened hall happly) hthere now
  have hready₂ : v₂.Ready := (hcontinues₁.trans hcontinues₂).ready.2 hentered
  let row : MigrationRow := ⟨m.id, m.name, now⟩
  have hrecorded : (Effect.storing (v₂.data.insert .schemaMigrations .refuse row) true).result =
      .ok ((), s₃) := by
    rw [hdata₂, hdata₁, hinsert]
    rfl
  obtain ⟨v₃, hon₃, -, -⟩ := (Computes.change (sound_record row)).exists_on hready₂ hrecorded
  have hwork : m.work.on u.entered = (.ok (), v₃) := by
    rw [work, on_bind_of_ok hon₁, on_bind_of_ok hon₂, hon₃]
  obtain ⟨w', hon, -⟩ := m.orderly_work.on_transact (hprepared.ready.2 hready).isOpen trivial
  rw [hwork] at hon
  exact ⟨w', by rw [perform_eq, on_bind_of_ok hu, hon]⟩

theorem of_on_names {names : List String}
    (h : (look fun s => (s.rows? .schemaMigrations).map fun (rows : List MigrationRow) =>
      rows.map (·.name)).on w = (.ok names, w')) :
    names = (w.data.rowsOf .schemaMigrations).map (·.name) ∧ w'.data = w.data ∧
      w.data.has .schemaMigrations = true := by
  obtain ⟨hnames, hw'⟩ := of_on_look h
  cases hget : w.data.get .schemaMigrations with
  | none =>
    rw [rows?, numbered?, hget] at hnames
    cases hnames
  | some rows =>
    rw [rows?, numbered?, hget] at hnames
    rw [rowsOf_of_eq_some hget, has, hget]
    exact ⟨(Except.ok.inj hnames).symm, hw', rfl⟩

/-- What is read of the record, which is there afterwards. -/
theorem of_on_recorded_eq_ok {names : List String} (h : recorded.on w = (.ok names, w')) :
    names = (w.data.rowsOf .schemaMigrations).map (·.name) ∧
      w'.data = w.data.create .schemaMigrations ∧ w'.data.has .schemaMigrations = true := by
  obtain ⟨present, v, hpresent, h⟩ := on_bind_eq_ok.1 h
  obtain ⟨hthere, hv⟩ := of_on_look hpresent
  obtain rfl := Except.ok.inj hthere
  cases hhas : w.data.has .schemaMigrations with
  | true =>
    rw [hhas] at h
    obtain ⟨hnames, hw', hthere⟩ := of_on_names h
    rw [hv] at hnames hw' hthere
    rw [create, if_pos hhas, hw']
    exact ⟨hnames, rfl, hthere⟩
  | false =>
    rw [hhas] at h
    obtain ⟨⟨⟩, u, hcreated, h⟩ := on_bind_eq_ok.1 h
    have hu := (Computes.change fun s => sound_done _ _ s).of_on (ready_of_on_change hcreated).1
      hcreated
    obtain ⟨-, hu⟩ := Prod.mk.inj (Except.ok.inj hu)
    obtain ⟨hnames, hw', hthere⟩ := of_on_names h
    rw [← hu, hv] at hnames hw' hthere
    rw [hw', hnames, rowsOf_create]
    exact ⟨rfl, rfl, hthere⟩

theorem reports_recorded : Reports recorded fun _ => False := by
  refine (Reports.look _).bind fun present => ?_
  cases present with
  | true => exact Reports.look _
  | false => exact (Reports.change _).bind fun _ => Reports.look _

theorem exists_on_names (hready : w.Ready) (hthere : w.data.has .schemaMigrations = true) :
    ∃ w', (look fun s => (s.rows? .schemaMigrations).map fun (rows : List MigrationRow) =>
      rows.map (·.name)).on w = (.ok ((w.data.rowsOf .schemaMigrations).map (·.name)), w') := by
  obtain ⟨rows, hget⟩ := Option.isSome_iff_exists.1 hthere
  have hrows : w.data.rows? .schemaMigrations = .ok (w.data.rowsOf .schemaMigrations) := by
    rw [rowsOf_of_eq_some hget]
    exact rows?_eq_ok.2 ⟨rows, hget, rfl⟩
  obtain ⟨w', hon, -⟩ := (Computes.look fun s => (s.rows? .schemaMigrations).map
    fun (rows : List MigrationRow) => rows.map (·.name)).exists_on hready
      ⟨congrArg (Except.map _) hrows, rfl⟩
  exact ⟨w', hon⟩

/-- Where rows can be written, the record is read. -/
theorem exists_on_recorded (hready : w.Ready) :
    ∃ w', recorded.on w = (.ok ((w.data.rowsOf .schemaMigrations).map (·.name)), w') := by
  obtain ⟨v, hpresent, hv, hcontinues⟩ := (Computes.look fun s : Store =>
    .ok (s.has .schemaMigrations)).exists_on hready ⟨rfl, rfl⟩
  have hready₁ := hcontinues.ready.2 hready
  rw [recorded, on_bind_of_ok hpresent]
  cases hhas : w.data.has .schemaMigrations with
  | true =>
    rw [← hv] at hhas ⊢
    exact exists_on_names hready₁ hhas
  | false =>
    obtain ⟨u, hcreated, hu, hcontinues₁⟩ := (Computes.change fun s =>
      sound_done () (s.create .schemaMigrations) s).exists_on hready₁ rfl
    have hthere : u.data.has .schemaMigrations = true := by rw [hu, has_create]
    obtain ⟨w', hon⟩ := exists_on_names (hcontinues₁.ready.2 hready₁) hthere
    rw [hu, rowsOf_create, hv] at hon
    exact ⟨w', (on_bind_of_ok hcreated).trans hon⟩

/-- Those of the steps that are recorded are passed over. -/
theorem applyMissing_append {names : List String} {found : List Migration}
    (hfound : ∀ m ∈ found, m.name ∈ names) (now before : List String) (rest : List Migration) :
    applyMissing names ⟨now, before⟩ (found ++ rest) =
      applyMissing names ⟨now, before ++ found.map (·.name)⟩ rest := by
  induction found generalizing before with
  | nil => rw [List.map_nil, List.append_nil, List.nil_append]
  | cons m found ih =>
    obtain ⟨hm, hfound⟩ := List.forall_mem_cons.1 hfound
    rw [List.cons_append, applyMissing, if_pos (List.contains_iff_mem.2 hm), ih hfound,
      List.map_cons, List.append_assoc, List.singleton_append]

theorem applyMissing_cons {names : List String} (hm : m.name ∉ names) (now before : List String)
    (rest : List Migration) :
    applyMissing names ⟨now, before⟩ (m :: rest) = (do
      (perform m).reporting (failure (some m.name) now)
      applyMissing names ⟨now ++ [m.name], before⟩ rest) := by
  rw [applyMissing, if_neg (fun h => hm (List.contains_iff_mem.1 h))]

/-- What a call of the migrations can answer where the given ones were applied and the others are
still to come, and the store that it leaves. -/
inductive Ends (done rest : List Migration) (w : World) : Except Failure Applied → Store → Prop
  /-- The others were applied. -/
  | finished {s : Store} (hmigrated : s.MigratedTo (done ++ rest)) (hretains : w.data.Retains s) :
    Ends done rest w (.ok ⟨rest.map (·.name), done.map (·.name)⟩) s
  /-- Some of the others were applied, the next one was not. -/
  | failed {fresh after : List Migration} {m : Migration} {cause : String} {s : Store}
    (hrest : rest = fresh ++ m :: after) (hmigrated : s.MigratedTo (done ++ fresh))
    (hretains : w.data.Retains s) :
    Ends done rest w
      (.error (.fault (failure (some m.name) (fresh.map (·.name)) cause))) s
  /-- Where rows cannot be written, the record is not there to read and is not made. -/
  | refused {cause : String} (hready : ¬ w.Ready) :
    Ends done rest w (.error (.fault (failure none [] cause))) w.data

/-- The steps to come are performed one by one up to the first that fails, of which nothing
stays. -/
theorem cases_on_applyMissing {names : List String} (now before : List String)
    (hnew : ∀ m ∈ rest, m.name ∉ names) (hall : all = done ++ rest) (h : w.data.MigratedTo done) :
    (∃ w', (applyMissing names ⟨now, before⟩ rest).on w =
        (.ok ⟨now ++ rest.map (·.name), before⟩, w') ∧
      w'.data.MigratedTo (done ++ rest) ∧ w.data.Retains w'.data) ∨
    ∃ fresh m after cause w', rest = fresh ++ m :: after ∧
      (applyMissing names ⟨now, before⟩ rest).on w =
        (.error (.fault (failure (some m.name) (now ++ fresh.map (·.name)) cause)), w') ∧
      w'.data.MigratedTo (done ++ fresh) ∧ w.data.Retains w'.data := by
  induction rest generalizing done now w with
  | nil =>
    refine .inl ⟨w, ?_, by rwa [List.append_nil], Retains.refl _⟩
    rw [List.map_nil, List.append_nil]
    rfl
  | cons m rest ih =>
    obtain ⟨hm, hnew⟩ := List.forall_mem_cons.1 hnew
    rw [applyMissing_cons hm]
    rcases hon : ((perform m).reporting (failure (some m.name) now)).on w with ⟨e | ⟨⟩, v⟩
    · obtain ⟨cause, rfl⟩ := m.reports_perform.exists_of_on_reporting_error hon
      obtain ⟨e', hperform⟩ := exists_on_of_reporting_error hon
      have hdata : v.data = w.data := m.whole_perform.undone hperform
      refine .inr ⟨[], m, rest, cause, v, rfl, ?_, ?_, ?_⟩
      · rw [on_bind_of_error hon, List.map_nil, List.append_nil]
      · rwa [List.append_nil, hdata]
      · rw [hdata]
        exact Retains.refl _
    · obtain ⟨hmigrated, hretains⟩ :=
        migratedTo_of_on_perform h hall (on_reporting_eq_ok.1 hon)
      have hall : all = done ++ [m] ++ rest := hall.trans (List.append_cons ..)
      rw [on_bind_of_ok hon]
      rcases ih (now ++ [m.name]) hnew hall hmigrated with
        ⟨w', hrest, hmigrated, hretains'⟩ | ⟨fresh, n, after, cause, w', rfl, hrest, hmigrated,
          hretains'⟩
      · refine .inl ⟨w', ?_, ?_, hretains.trans hretains'⟩
        · rw [hrest, List.append_assoc, List.map_cons, List.singleton_append]
        · rwa [List.append_assoc] at hmigrated
      · refine .inr ⟨m :: fresh, n, after, cause, w', rfl, ?_, ?_, hretains.trans hretains'⟩
        · rw [hrest, List.append_assoc, List.map_cons, List.singleton_append]
        · rwa [List.append_assoc] at hmigrated

theorem names_eq (h : w.data.MigratedTo done) :
    (w.data.rowsOf .schemaMigrations).map (·.name) = done.map (·.name) := by
  have hnames := congrArg (List.map Prod.snd) h.recorded
  rwa [List.map_map, List.map_map] at hnames

theorem notMem_names (hall : all = done ++ rest) :
    ∀ m ∈ rest, m.name ∉ done.map (·.name) := by
  intro m hm hmem
  obtain ⟨n, hn, hname⟩ := List.mem_map.1 hmem
  have hnodup : (done ++ rest).Nodup := hall ▸ by decide
  exact (List.nodup_append.1 hnodup).2.2 n hn m hm (name_injective hname)

/-- Where the record was read, the call goes on with the steps that are not in it. -/
theorem on_run_of_recorded (hall : all = done ++ rest) {v : World}
    (hon : recorded.on w = (.ok (done.map (·.name)), v)) :
    run.on w = (applyMissing (done.map (·.name)) ⟨[], done.map (·.name)⟩ rest).on v := by
  have happend : applyMissing (done.map (·.name)) ⟨[], []⟩ (done ++ rest) = _ :=
    applyMissing_append (fun m hm => List.mem_map_of_mem (f := name) hm) [] [] rest
  rw [List.nil_append, ← hall] at happend
  rw [run, on_bind_of_ok (on_reporting_eq_ok.2 hon), happend]

/--
A call of the migrations applies those that were not, in their order. If it fails it names the step
that failed and those that it applied before, and nothing of the step that failed and of those after
it stays; if it cannot even read the record, it changes nothing. Either way it leaves the other
tables that are there as they are.
-/
theorem ends_on_run (h : w.data.MigratedTo done) (hall : all = done ++ rest) :
    Ends done rest w (run.on w).1 (run.on w).2.data := by
  rcases hon : recorded.on w with ⟨e | names, v⟩
  · have hready : ¬ w.Ready := by
      intro hready
      obtain ⟨w', hon'⟩ := exists_on_recorded hready
      rw [hon] at hon'
      cases (Prod.mk.inj hon').1
    have hdata : v.data = w.data := by
      have hidle := orderly_recorded.idle trivial hready
      rwa [hon] at hidle
    rcases hreported : (recorded.reporting (failure none [])).on w with ⟨e' | names, u⟩
    · obtain ⟨cause, rfl⟩ := reports_recorded.exists_of_on_reporting_error hreported
      obtain ⟨e'', hon'⟩ := exists_on_of_reporting_error hreported
      obtain ⟨-, rfl⟩ := Prod.mk.inj (hon.symm.trans hon')
      rw [run, on_bind_of_error hreported, hdata]
      exact .refused hready
    · rw [on_reporting_eq_ok, hon] at hreported
      cases (Prod.mk.inj hreported).1
  · obtain ⟨rfl, hdata, -⟩ := of_on_recorded_eq_ok hon
    have hnames := names_eq h
    rw [hnames] at hon
    have hcreated : v.data.MigratedTo done := hdata ▸ h.create
    have hretained : w.data.Retains v.data := hdata ▸ retains_create w.data
    rw [on_run_of_recorded hall hon]
    rcases cases_on_applyMissing [] _ (notMem_names hall) hall hcreated with
      ⟨w', hrest, hmigrated, hretains⟩ | ⟨fresh, m, after, cause, w', hparts, hrest, hmigrated,
        hretains⟩
    · rw [hrest]
      exact .finished hmigrated (hretained.trans hretains)
    · rw [hrest]
      exact .failed hparts hmigrated (hretained.trans hretains)

/-- Where rows can be written and the clock gives instants, all steps to come are performed. -/
theorem exists_on_applyMissing {names : List String} (now before : List String) (hready : w.Ready)
    (hticks : w.Ticks) (hnew : ∀ m ∈ rest, m.name ∉ names) (hall : all = done ++ rest)
    (h : w.data.MigratedTo done) (hthere : w.data.has .schemaMigrations = true) :
    ∃ w', (applyMissing names ⟨now, before⟩ rest).on w =
      (.ok ⟨now ++ rest.map (·.name), before⟩, w') := by
  induction rest generalizing done now w with
  | nil =>
    rw [List.map_nil, List.append_nil]
    exact ⟨w, rfl⟩
  | cons m rest ih =>
    obtain ⟨hm, hnew⟩ := List.forall_mem_cons.1 hnew
    obtain ⟨v, hon⟩ := exists_on_perform hready hticks h hthere hall
    have hcontinues := m.whole_perform.orderly.continues_of_on hon
    obtain ⟨hmigrated, -⟩ := migratedTo_of_on_perform h hall hon
    have hall : all = done ++ [m] ++ rest := hall.trans (List.append_cons ..)
    obtain ⟨w', hrest⟩ := ih (now ++ [m.name]) (hcontinues.ready.2 hready)
      (hcontinues.ticks hticks) hnew hall hmigrated hmigrated.has_steps
    refine ⟨w', ?_⟩
    rw [applyMissing_cons hm, on_bind_of_ok (on_reporting_eq_ok.2 hon), hrest, List.append_assoc,
      List.map_cons, List.singleton_append]

/-- Where rows can be written and the clock gives instants, a call succeeds. -/
theorem on_run_of_ready (hready : w.Ready) (hticks : w.Ticks) (h : w.data.MigratedTo done)
    (hall : all = done ++ rest) :
    (run.on w).1 = .ok ⟨rest.map (·.name), done.map (·.name)⟩ := by
  obtain ⟨v, hon⟩ := exists_on_recorded hready
  obtain ⟨-, hdata, hthere⟩ := of_on_recorded_eq_ok hon
  rw [names_eq h] at hon
  have hcontinues := orderly_recorded.continues_of_on hon
  obtain ⟨w', hrest⟩ := exists_on_applyMissing [] _ (hcontinues.ready.2 hready)
    (hcontinues.ticks hticks) (notMem_names hall) hall (hdata ▸ h.create) hthere
  rw [on_run_of_recorded hall hon, hrest]
  rfl

end Migration
end FilmReport
