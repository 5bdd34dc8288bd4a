import FilmReport.Proofs.Store.Avoided

/-!
Stores in which the first of the migrations were applied: the record names them, and there are just
the tables and the columns that they make (`Store.MigratedTo`). A step that is applied and recorded
leads from one such store to the next and leaves the tables that are there as they are; a change of
rows keeps them all.
-/

set_option autoImplicit false
set_option relaxedAutoImplicit false

namespace FilmReport

namespace Migration

/-- The columns that a step makes in a table. -/
def columns : Migration → Table → List String
  | dataset, .movie =>
    ["id", "title", "year", "date_published", "duration", "country", "worldwide_gross_income",
     "languages", "production_company"]
  | dataset, .names => ["id", "name", "height", "date_of_birth", "known_for_movies"]
  | dataset, .genre => ["movie_id", "genre"]
  | dataset, .directorMapping => ["movie_id", "name_id"]
  | dataset, .roleMapping => ["movie_id", "name_id", "category"]
  | dataset, .ratings => ["movie_id", "avg_rating", "total_votes", "median_rating"]
  | normalization, .movie => ["worldwide_gross_num"]
  | normalization, .movieCountry => ["movie_id", "position", "country"]
  | normalization, .stagedCountry => ["movie_id", "position", "country"]
  | normalization, .movieLanguage => ["movie_id", "position", "language"]
  | normalization, .stagedLanguage => ["movie_id", "position", "language"]
  | normalization, .normalizationRuns =>
    ["id", "status", "started_at", "finished_at", "gross_parsed", "gross_absent", "gross_invalid",
     "country_rows", "language_rows", "standardized_json", "options_json", "error_code",
     "error_message"]
  | normalization, .sequences => ["name", "seq"]
  | _, _ => []

/-- The steps after the first ones are none, the second one, or both. -/
theorem eq_of_all_eq_append {done rest : List Migration} {m : Migration}
    (h : all = done ++ m :: rest) :
    (done = [] ∧ m = dataset) ∨ (done = [dataset] ∧ m = normalization) := by
  rcases done with _ | ⟨first, _ | ⟨second, done⟩⟩
  · exact .inl ⟨rfl, (List.cons.inj h).1.symm⟩
  · obtain ⟨rfl, hrest⟩ := List.cons.inj h
    exact .inr ⟨rfl, (List.cons.inj hrest).1.symm⟩
  · have hlength := congrArg List.length h
    simp only [List.length_append, List.length_cons, all, List.length_nil] at hlength
    omega

theorem name_injective {m n : Migration} (h : m.name = n.name) : m = n := by
  cases m <;> cases n <;> first | rfl | exact absurd h (by decide)

end Migration

namespace Store

variable {s s' : Store} {t u : Table} {done : List Migration}

/-- The names of the columns of a table, none if it is absent. -/
def columnNames (s : Store) (t : Table) : List String :=
  if s.has t then (s.columnsOf t).map (·.name) else []

/-- A store in which the given migrations were applied and no others. -/
structure MigratedTo (done : List Migration) (s : Store) : Prop where
  recorded : (s.rowsOf .schemaMigrations).map (fun r => (r.id, r.name)) =
    done.map fun m => (m.id, m.name)
  columns : ∀ t, t ≠ .schemaMigrations → s.columnNames t = done.flatMap (·.columns t)
  hasAmount : s.hasAmount = done.contains .normalization

/-- The tables of a store, but for the record of the steps, are in another one as they are. -/
def Retains (s s' : Store) : Prop :=
  ∀ t, t ≠ .schemaMigrations → s.has t = true → s'.get t = s.get t

theorem Retains.refl (s : Store) : s.Retains s :=
  fun _ _ _ => rfl

theorem Retains.trans {s'' : Store} (h : s.Retains s') (h' : s'.Retains s'') : s.Retains s'' := by
  intro t ht hthere
  have hget := h t ht hthere
  exact (h' t ht (by rwa [has, hget])).trans hget

theorem retains_create (s : Store) : s.Retains (s.create .schemaMigrations) := by
  intro t ht hthere
  rw [Store.create]
  split
  · rfl
  · exact get_put_of_ne s _ ht

theorem has_create (s : Store) :
    (s.create .schemaMigrations).has .schemaMigrations = true := by
  rw [Store.create]
  split
  · next hthere => exact hthere
  · rfl

theorem migratedTo_empty : Store.empty.MigratedTo [] where
  recorded := rfl
  columns t _ := by cases t <;> rfl
  hasAmount := rfl

theorem columnNames_congr (hhas : s'.has t = s.has t) (hamount : s'.hasAmount = s.hasAmount) :
    s'.columnNames t = s.columnNames t := by
  rw [columnNames, columnNames, columnsOf, columnsOf, hhas, hamount]

theorem columnNames_eq_nil_iff : s.columnNames t = [] ↔ s.has t = false := by
  have hsome : ∀ b : Bool, ((layout t).columns.filter fun c =>
      t ≠ .movie || c.name ≠ amountColumn || b).map (·.name) ≠ [] := by
    intro b
    cases t <;> cases b <;> decide
  rw [columnNames, columnsOf]
  cases s.has t with
  | false => exact iff_of_true rfl rfl
  | true => exact iff_of_false (hsome _) Bool.noConfusion

namespace MigratedTo

theorem congr (h : s.MigratedTo done) (hhas : ∀ t, s'.has t = s.has t)
    (hamount : s'.hasAmount = s.hasAmount)
    (hrows : s'.rowsOf .schemaMigrations = s.rowsOf .schemaMigrations) : s'.MigratedTo done where
  recorded := hrows ▸ h.recorded
  columns t ht := (columnNames_congr (hhas t) hamount).trans (h.columns t ht)
  hasAmount := hamount.trans h.hasAmount

/-- A step that was applied is in the record. -/
theorem has_steps {m : Migration} (h : s.MigratedTo (done ++ [m])) :
    s.has .schemaMigrations = true := by
  rw [has]
  cases hget : s.get .schemaMigrations with
  | some rows => rfl
  | none =>
    have hrecorded := h.recorded
    rw [rowsOf, hget, List.map_append] at hrecorded
    exact absurd hrecorded.symm (List.append_ne_nil_of_right_ne_nil _ (List.cons_ne_nil _ _))

theorem get_eq_none (h : s.MigratedTo done) (ht : t ≠ .schemaMigrations)
    (hnone : done.flatMap (·.columns t) = []) : s.get t = none := by
  have hhas := columnNames_eq_nil_iff.1 ((h.columns t ht).trans hnone)
  exact Option.not_isSome_iff_eq_none.1 (by rw [← has, hhas]; decide)

theorem exists_get (h : s.MigratedTo done) (ht : t ≠ .schemaMigrations)
    (hsome : done.flatMap (·.columns t) ≠ []) : ∃ rows, s.get t = some rows := by
  refine Option.isSome_iff_exists.1 ?_
  rw [← has, ← Bool.not_eq_false, ← columnNames_eq_nil_iff, h.columns t ht]
  exact hsome

/-- What a step makes of a store in which the steps before it were applied: the tables and columns
of the step are there, and what was there before is as it was. -/
structure Widened (done : List Migration) (s s' : Store) : Prop where
  steps : s'.get .schemaMigrations = s.get .schemaMigrations
  columns : ∀ t, t ≠ .schemaMigrations → s'.columnNames t = done.flatMap (·.columns t)
  hasAmount : s'.hasAmount = done.contains .normalization
  kept : ∀ t, s.has t = true → s'.get t = s.get t

theorem widened_dataset (h : s.MigratedTo []) :
    Widened [.dataset] s (Migration.createAll Migration.datasetTables s) := by
  have hnone : ∀ t, t ≠ .schemaMigrations → s.get t = none := fun t ht => h.get_eq_none ht rfl
  have hamount := h.hasAmount
  rcases s with ⟨movie, hasAmount, names, genre, directors, roles, ratings, country, stagedCountry,
    language, stagedLanguage, runs, steps, sequences⟩
  obtain rfl : movie = none := hnone .movie (by decide)
  obtain rfl : names = none := hnone .names (by decide)
  obtain rfl : genre = none := hnone .genre (by decide)
  obtain rfl : directors = none := hnone .directorMapping (by decide)
  obtain rfl : roles = none := hnone .roleMapping (by decide)
  obtain rfl : ratings = none := hnone .ratings (by decide)
  obtain rfl : country = none := hnone .movieCountry (by decide)
  obtain rfl : stagedCountry = none := hnone .stagedCountry (by decide)
  obtain rfl : language = none := hnone .movieLanguage (by decide)
  obtain rfl : stagedLanguage = none := hnone .stagedLanguage (by decide)
  obtain rfl : runs = none := hnone .normalizationRuns (by decide)
  obtain rfl : sequences = none := hnone .sequences (by decide)
  obtain rfl : hasAmount = false := hamount
  exact {
    steps := rfl
    columns := fun t ht => by cases t <;> first | rfl | exact absurd rfl ht
    hasAmount := rfl
    kept := fun t ht => by cases t <;> first | rfl | cases ht }

theorem widened_normalization (h : s.MigratedTo [.dataset])
    (hs' : Migration.normalization.apply s = .ok s') : Widened [.dataset, .normalization] s s' := by
  have hsome : ∀ t, t ≠ .schemaMigrations → Migration.dataset.columns t ≠ [] →
      ∃ rows, s.get t = some rows := fun t ht hcolumns => h.exists_get ht (by simpa using hcolumns)
  have hnone : ∀ t, t ≠ .schemaMigrations → Migration.dataset.columns t = [] → s.get t = none :=
    fun t ht hcolumns => h.get_eq_none ht (by simpa using hcolumns)
  have hamount := h.hasAmount
  rcases s with ⟨movie, hasAmount, names, genre, directors, roles, ratings, country, stagedCountry,
    language, stagedLanguage, runs, steps, sequences⟩
  obtain ⟨movies, rfl : movie = some movies⟩ := hsome .movie (by decide) (by decide)
  obtain ⟨_, rfl : names = some _⟩ := hsome .names (by decide) (by decide)
  obtain ⟨_, rfl : genre = some _⟩ := hsome .genre (by decide) (by decide)
  obtain ⟨_, rfl : directors = some _⟩ := hsome .directorMapping (by decide) (by decide)
  obtain ⟨_, rfl : roles = some _⟩ := hsome .roleMapping (by decide) (by decide)
  obtain ⟨_, rfl : ratings = some _⟩ := hsome .ratings (by decide) (by decide)
  obtain rfl : country = none := hnone .movieCountry (by decide) (by decide)
  obtain rfl : stagedCountry = none := hnone .stagedCountry (by decide) (by decide)
  obtain rfl : language = none := hnone .movieLanguage (by decide) (by decide)
  obtain rfl : stagedLanguage = none := hnone .stagedLanguage (by decide) (by decide)
  obtain rfl : runs = none := hnone .normalizationRuns (by decide) (by decide)
  obtain rfl : sequences = none := hnone .sequences (by decide) (by decide)
  obtain rfl : hasAmount = false := hamount
  obtain rfl := Except.ok.inj hs'
  exact {
    steps := rfl
    columns := fun t ht => by cases t <;> first | rfl | exact absurd rfl ht
    hasAmount := rfl
    kept := fun t ht => by cases t <;> first | rfl | cases ht }

/-- A step makes what is missing beside what the steps before it made. -/
theorem widened {m : Migration} {rest : List Migration} (h : s.MigratedTo done)
    (hall : Migration.all = done ++ m :: rest) (hs' : m.apply s = .ok s') :
    Widened (done ++ [m]) s s' := by
  rcases Migration.eq_of_all_eq_append hall with ⟨rfl, rfl⟩ | ⟨rfl, rfl⟩
  · obtain rfl := Except.ok.inj hs'
    exact h.widened_dataset
  · exact h.widened_normalization hs'

/-- A step can be applied after those before it. -/
theorem exists_apply {m : Migration} {rest : List Migration} (h : s.MigratedTo done)
    (hall : Migration.all = done ++ m :: rest) : ∃ s', m.apply s = .ok s' := by
  rcases Migration.eq_of_all_eq_append hall with ⟨rfl, rfl⟩ | ⟨rfl, rfl⟩
  · exact ⟨_, rfl⟩
  · obtain ⟨rows, hget⟩ := h.exists_get (t := .movie) (by decide) (by decide)
    have hamount : s.hasAmount = false := h.hasAmount
    refine ⟨Migration.createAll Migration.normalizationTables { s with hasAmount := true }, ?_⟩
    rw [Migration.apply, Migration.addAmount, rows?_eq_ok.2 ⟨rows, hget, rfl⟩, ok_bind, hamount]
    rfl

/-- A step that was not applied can be recorded. -/
theorem exists_insert {m : Migration} {rest : List Migration} {s₀ : Store}
    (h : s₀.MigratedTo done) (hall : Migration.all = done ++ m :: rest)
    (hwidened : Widened (done ++ [m]) s₀ s) (hthere : s₀.has .schemaMigrations = true)
    (time : String) : ∃ s', s.insert .schemaMigrations .refuse ⟨m.id, m.name, time⟩ = .ok s' := by
  obtain ⟨rows, hget⟩ := Option.isSome_iff_exists.1 hthere
  refine ⟨_, insert_refuse_eq_ok.2 ⟨rows, hwidened.steps.trans hget, ⟨rfl, rfl, ?_, rfl⟩, rfl⟩⟩
  have hnew : m ∉ done := by
    have hnodup : (done ++ m :: rest).Nodup := hall ▸ by decide
    exact fun hmem => (List.nodup_append.1 hnodup).2.2 m hmem m List.mem_cons_self rfl
  have hrecorded := h.recorded
  rw [rowsOf_of_eq_some hget] at hrecorded
  refine keysFree_eq_ok.2 fun key hkey other hother => ?_
  have hmem : (other.id, other.name) ∈ done.map fun m => (m.id, m.name) :=
    hrecorded ▸ List.mem_map_of_mem hother
  obtain ⟨n, hn, hsame⟩ := List.mem_map.1 hmem
  obtain ⟨id, name, time'⟩ := other
  obtain ⟨rfl, rfl⟩ := Prod.mk.inj hsame
  have hne : m ≠ n := fun hmn => hnew (hmn ▸ hn)
  simp only [layout, migrationLayout, List.mem_cons, List.not_mem_nil, or_false] at hkey
  rcases hkey with rfl | rfl <;> cases m <;> cases n <;> first | rfl | exact absurd rfl hne

/-- A step that is recorded is one more that was applied. -/
theorem of_insert {m : Migration} {time : String} {s₀ : Store} (h : s₀.MigratedTo done)
    (hwidened : Widened (done ++ [m]) s₀ s)
    (hs' : s.insert .schemaMigrations .refuse ⟨m.id, m.name, time⟩ = .ok s') :
    s'.MigratedTo (done ++ [m]) ∧ s₀.Retains s' := by
  obtain ⟨rows, hget, -, rfl⟩ := insert_refuse_eq_ok.1 hs'
  have hother : ∀ t, t ≠ .schemaMigrations → ∀ rows,
      (s.put .schemaMigrations rows).get t = s.get t := fun t ht rows => get_put_of_ne s rows ht
  refine ⟨⟨?_, fun t ht => ?_, ?_⟩, fun t ht hthere => ?_⟩
  · have hrecorded := h.recorded
    rw [rowsOf, ← hwidened.steps, ← rowsOf, rowsOf_of_eq_some hget] at hrecorded
    rw [rowsOf_put, List.map_append, List.map_append, List.map_append, hrecorded]
    rfl
  · rw [← hwidened.columns t ht]
    exact columnNames_congr (by rw [has, has, hother t ht]) (hasAmount_put s _ _)
  · exact (hasAmount_put s _ _).trans hwidened.hasAmount
  · exact (hother t ht _).trans (hwidened.kept t hthere)

/-- The table that records the steps is made, if it is missing. -/
theorem create (h : s.MigratedTo done) : (s.create .schemaMigrations).MigratedTo done := by
  rw [Store.create]
  split
  · exact h
  · next hmissing =>
    have hnone : s.get .schemaMigrations = none := Option.not_isSome_iff_eq_none.1 hmissing
    refine ⟨?_, fun t ht => ?_, h.hasAmount⟩
    · rw [← h.recorded, rowsOf, rowsOf, hnone]
      rfl
    · rw [← h.columns t ht]
      have hget : (s.put .schemaMigrations (some [])).get t = s.get t := get_put_of_ne s _ ht
      exact columnNames_congr (by rw [has, has]; exact congrArg _ hget) (hasAmount_put s _ _)

/-- A change of rows, but for those of the record, takes no table, no column and no step away. -/
theorem preserves {c : Change} (hrows : c.ChangesRows) (havoids : c.Avoids .schemaMigrations) :
    c.Preserves (MigratedTo done) := by
  intro s s' hs hs'
  have hsteps : s'.rowsOf .schemaMigrations = s.rowsOf .schemaMigrations := by
    rw [rowsOf, rowsOf, Change.get_of_changesRows hrows havoids rfl hs']
  obtain rfl | ⟨t, rows, hhas, rfl, -⟩ | ⟨t, which, n, -, hdelete⟩ :=
    Change.after_cases_of_changesRows hrows hs'
  · exact hs
  · refine hs.congr (fun u => ?_) (hasAmount_put s t _) hsteps
    by_cases hu : u = t
    · subst hu
      rw [has_put hhas, hhas]
    · rw [has, has, get_put_of_ne s _ hu]
  · exact hs.congr (fun u => has_of_delete hdelete) (hasAmount_of_delete hdelete) hsteps

end MigratedTo
end Store
end FilmReport
