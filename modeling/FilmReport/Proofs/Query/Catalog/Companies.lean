import FilmReport.Proofs.Normalize.Again
import FilmReport.Proofs.Query.Catalog.Memberships

/-!
The production companies that the queries list after a run. The run writes a word where a company is
missing or blank, and the queries leave out just this word. A company that is the word between
blanks is missing to the run where it splits texts and reads amounts, but it is neither rewritten
nor left out: these are all the missing companies that can be listed (`ListsCompanies.agree`).
-/

set_option autoImplicit false
set_option relaxedAutoImplicit false

namespace FilmReport

namespace Normalize

/-- A text other than the word for missing texts is filled in from the same text, if not blank. -/
theorem filledText_eq_iff {text : Option String} {company : String} (h : company ≠ missingWord) :
    filledText text = some company ↔ text = some company ∧ Text.trimBlank company ≠ "" := by
  rw [filledText]
  split
  · next hblank =>
    refine iff_of_false (fun hword => h (Option.some.inj hword).symm) ?_
    rintro ⟨rfl, hcompany⟩
    exact hcompany (beq_iff_eq.1 hblank)
  · next hblank =>
    refine ⟨?_, And.left⟩
    rintro rfl
    exact ⟨rfl, fun hcompany => hblank (beq_iff_eq.2 hcompany)⟩

/-- A text that is not blank is missing just where it is the word, with or without blanks. -/
theorem isMissing_iff_of_ne {company : String} (h : Text.trimBlank company ≠ "") :
    isMissing (some company) = true ↔ Text.trimBlank company = missingWord := by
  rw [isMissing, Bool.or_eq_true, beq_iff_eq, beq_iff_eq, or_iff_right h]

end Normalize

namespace Query.Companies

open Store Normalize

/-- Companies with a total of the movies of each. -/
structure CompanyTotals (total : List MovieRow → Cell) (movies : List MovieRow)
    (entries : List (String × Cell)) : Prop where
  once : (entries.map Prod.fst).Nodup
  mem : ∀ company c, (company, c) ∈ entries ↔
    (∃ m ∈ movies, m.productionCompany = some company) ∧
      c = total (movies.filter fun m => m.productionCompany = some company)

/-- Movies that have companies, grouped by these. -/
theorem exists_companyTotals (total : List MovieRow → Cell) {movies : List MovieRow}
    (h : ∀ m ∈ movies, m.productionCompany ≠ none) : ∃ entries,
      grouped (fun m => [.ofText? m.productionCompany]) (fun ms => [total ms]) movies =
        entries.map groupCells ∧ CompanyTotals total movies entries := by
  have hcode : Function.Injective fun c : Option String => [Cell.ofText? c] :=
    fun _ _ hcells => Cell.ofText?_eq_of_rank (congrArg Cell.rank (List.head_eq_of_cons_eq hcells))
  have hkey : ∀ m : MovieRow, normalKey (fun m => [.ofText? m.productionCompany]) m =
      [.ofText? m.productionCompany] := by
    intro m
    cases hcompany : m.productionCompany <;> simp [normalKey, hcompany, Cell.ofText?, Cell.normal]
  obtain ⟨groups, hnodup, hmem, hrows⟩ :=
    exists_groups _ MovieRow.productionCompany hcode hkey (fun ms => [total ms]) movies
  obtain ⟨companies, rfl⟩ : groups ∈ Set.range (List.map some) := by
    rw [Set.range_list_map]
    intro k hk
    obtain ⟨m, hm, rfl⟩ := (hmem k).1 hk
    exact Option.ne_none_iff_exists.1 (h m hm)
  have honce := hnodup.of_map
  refine ⟨companies.map fun company =>
    (company, total (movies.filter fun m => m.productionCompany = some company)), ?_, ?_, ?_⟩
  · rw [hrows, List.map_map, List.map_map]
    rfl
  · rw [List.map_map]
    simpa [Function.comp_def] using honce
  · intro company c
    have hcompany := hmem (some company)
    rw [List.mem_map_of_injective (Option.some_injective _)] at hcompany
    rw [← hcompany]
    simp only [List.mem_map, Prod.mk.injEq]
    constructor
    · rintro ⟨other, hother, rfl, rfl⟩
      exact ⟨hother, rfl⟩
    · rintro ⟨hmember, rfl⟩
      exact ⟨company, hmember, rfl, rfl⟩

/-- A query that puts groups by company in order, and lists all or some of them. -/
theorem exists_reports {d : Definition} (hd : d ∈ catalog) {w : World} (hw : w.obstacle = none)
    (hprepare : d.statement.prepare w.data = .ok ()) {total : List MovieRow → Cell}
    {movies : List MovieRow} (h : ∀ m ∈ movies, m.productionCompany ≠ none)
    (listed : List (List Cell) → List (List Cell)) (hlisted : ∀ rows, listed rows ⊆ rows)
    (hrows : ∀ p, d.statement.rows p w.data = (listed (sortBy [.down 1, .up 0]
      (grouped (fun m => [.ofText? m.productionCompany]) (fun ms => [total ms]) movies))).map
        (List.map .cell))
    (hlength : 2 ≤ d.statement.columns.length) :
    ∃ entries, CompanyTotals total movies entries ∧
      d.Reports w (listed (sortBy [.down 1, .up 0] (entries.map groupCells))) := by
  obtain ⟨entries, hentries, htotals⟩ := exists_companyTotals total h
  refine ⟨entries, htotals, reports_of_prepare hd hw hprepare (hentries ▸ hrows) ?_⟩
  intro row hrow
  obtain ⟨entry, -, rfl⟩ := List.mem_map.1 (mem_orderBy.1 (hlisted _ hrow))
  exact hlength

theorem mem_companyMovies {s : Store} {m : MovieRow} : m ∈ companyMovies s ↔
    m ∈ s.rowsOf .movie ∧
      ∃ company, m.productionCompany = some company ∧ company ≠ missingWord := by
  rw [companyMovies, List.mem_filter]
  refine and_congr_right fun _ => ?_
  cases m.productionCompany with
  | none => simp
  | some company => simp [missingWord]

theorem productionCompany_ne_none {s : Store} {m : MovieRow} (hm : m ∈ companyMovies s) :
    m.productionCompany ≠ none := by
  obtain ⟨-, company, hcompany, -⟩ := mem_companyMovies.1 hm
  rw [hcompany]
  exact Option.some_ne_none company

/-- What the queries about companies list in a world after a run on some movies. -/
structure ListsCompanies (movies : List MovieRow) (w : World) : Prop where
  durations : ∃ entries, CompanyTotals (fun ms => rounded 2 (average (ms.map (·.duration))))
    (companyMovies w.data) entries ∧
      averageDuration.Reports w (sortBy [.down 1, .up 0] (entries.map groupCells))
  amounts : ∃ entries, CompanyTotals (fun ms => rounded 2 (average (ms.map (·.grossAmount))))
    ((companyMovies w.data).filter hasGross) entries ∧
      averageGross.Reports w (sortBy [.down 1, .up 0] (entries.map groupCells))
  highest : ∃ entries, CompanyTotals (fun ms => rounded 2 (sum (ms.map (·.grossAmount))))
    (companyMovies w.data) entries ∧
      highestGrossing.Reports w ((sortBy [.down 1, .up 0] (entries.map groupCells)).take 5)
  /-- The companies are those of the movies before the run that are neither blank nor the word. -/
  mem : ∀ company, (∃ m ∈ companyMovies w.data, m.productionCompany = some company) ↔
    ∃ m ∈ movies, m.productionCompany = some company ∧ Text.trimBlank company ≠ "" ∧
      company ≠ missingWord
  memGross : ∀ company,
    (∃ m ∈ (companyMovies w.data).filter hasGross, m.productionCompany = some company) ↔
      ∃ m ∈ movies, hasGross (normalMovie m) = true ∧ m.productionCompany = some company ∧
        Text.trimBlank company ≠ "" ∧ company ≠ missingWord
  /-- A company that is listed is missing to the run just where it is the word between blanks. -/
  missing : ∀ company, (∃ m ∈ companyMovies w.data, m.productionCompany = some company) →
    (isMissing (some company) = true ↔ Text.trimBlank company = missingWord)
  /-- The run and the queries agree just where no movie has the word between blanks. -/
  agree : (∀ m ∈ companyMovies w.data, isMissing m.productionCompany = false) ↔
    ∀ m ∈ movies, ∀ company, m.productionCompany = some company →
      Text.trimBlank company = missingWord → company = missingWord

section Lists

variable {s s' : Store} {options : SplitOptions} {r : Run}

/-- The movies that have companies after a run. -/
theorem mem_companyMovies_of_outcome (h : Outcome options s r s') {m' : MovieRow} :
    m' ∈ companyMovies s' ↔ ∃ m ∈ s.rowsOf .movie, normalMovie m = m' ∧
      ∃ company, m.productionCompany = some company ∧ m'.productionCompany = some company ∧
        Text.trimBlank company ≠ "" ∧ company ≠ missingWord := by
  rw [mem_companyMovies, h.rowsOf_movie, List.mem_map]
  constructor
  · rintro ⟨⟨m, hm, rfl⟩, company, hcompany, hword⟩
    obtain ⟨hbefore, hblank⟩ := (filledText_eq_iff hword).1 hcompany
    exact ⟨m, hm, rfl, company, hbefore, hcompany, hblank, hword⟩
  · rintro ⟨m, hm, hafter, company, -, hcompany, -, hword⟩
    exact ⟨⟨m, hm, hafter⟩, company, hcompany, hword⟩

theorem exists_company_iff (h : Outcome options s r s') (p : MovieRow → Prop) (company : String) :
    (∃ m ∈ companyMovies s', p m ∧ m.productionCompany = some company) ↔
      ∃ m ∈ s.rowsOf .movie, p (normalMovie m) ∧ m.productionCompany = some company ∧
        Text.trimBlank company ≠ "" ∧ company ≠ missingWord := by
  constructor
  · rintro ⟨m', hm', hp, hcompany⟩
    obtain ⟨m, hm, rfl, other, hbefore, hafter, hblank, hword⟩ :=
      (mem_companyMovies_of_outcome h).1 hm'
    obtain rfl := Option.some.inj (hafter.symm.trans hcompany)
    exact ⟨m, hm, hp, hbefore, hblank, hword⟩
  · rintro ⟨m, hm, hp, hbefore, hblank, hword⟩
    have hafter : (normalMovie m).productionCompany = some company :=
      (filledText_eq_iff hword).2 ⟨hbefore, hblank⟩
    exact ⟨normalMovie m, (mem_companyMovies_of_outcome h).2
      ⟨m, hm, rfl, company, hbefore, hafter, hblank, hword⟩, hp, hafter⟩

/-- A company after a run is not blank. -/
theorem trimBlank_ne_of_outcome (h : Outcome options s r s') {m' : MovieRow} {company : String}
    (hm' : m' ∈ companyMovies s') (hcompany : m'.productionCompany = some company) :
    Text.trimBlank company ≠ "" := by
  obtain ⟨m, -, -, other, -, hafter, hblank, -⟩ := (mem_companyMovies_of_outcome h).1 hm'
  obtain rfl := Option.some.inj (hafter.symm.trans hcompany)
  exact hblank

/-- No company is missing after a run just if none was the word between blanks before it. -/
theorem forall_isMissing_iff (h : Outcome options s r s') :
    (∀ m ∈ companyMovies s', isMissing m.productionCompany = false) ↔
      ∀ m ∈ s.rowsOf .movie, ∀ company, m.productionCompany = some company →
        Text.trimBlank company = missingWord → company = missingWord := by
  constructor
  · intro hagree m hm company hcompany hpadded
    by_contra hword
    have hblank : Text.trimBlank company ≠ "" := by
      rw [hpadded]
      decide
    have hafter : (normalMovie m).productionCompany = some company :=
      (filledText_eq_iff hword).2 ⟨hcompany, hblank⟩
    have hpresent := hagree (normalMovie m) ((mem_companyMovies_of_outcome h).2
      ⟨m, hm, rfl, company, hcompany, hafter, hblank, hword⟩)
    rw [hafter, (isMissing_iff_of_ne hblank).2 hpadded] at hpresent
    cases hpresent
  · intro hnone m' hm'
    obtain ⟨m, hm, -, company, hbefore, hafter, hblank, hword⟩ :=
      (mem_companyMovies_of_outcome h).1 hm'
    rw [hafter, ← Bool.not_eq_true, isMissing_iff_of_ne hblank]
    exact fun hpadded => hword (hnone m hm company hbefore hpadded)

end Lists

/-- After a run the queries about companies list those that are neither blank nor the word for a
missing text, so that the word between blanks is the only missing company they can list. -/
theorem listsCompanies_of_on_run {journal : Journal.Logger} {given : Fields} {r : Run}
    {w w' : World} (h : (Normalize.run journal given).on w = (.ok r, w')) :
    ListsCompanies (w.data.rowsOf .movie) w' := by
  obtain ⟨o, s, -, hready, hperformed, hstatus, hrecorded, hcontinues⟩ := of_on_run h
  obtain ⟨hnormalizable, hx, rfl⟩ := performed_iff.1 hperformed
  obtain ⟨hprogress, hwarnings⟩ := Prod.mk.inj hx
  have houtcome := outcome_of_normalizable hnormalizable hprogress hwarnings hstatus hrecorded
  have hw := (hcontinues.ready.2 hready).obstacle
  have hmovie : w'.data.has .movie = true :=
    (congrArg Option.isSome houtcome.movie).trans (Option.isSome_map.trans hnormalizable.movie)
  have hneeds : needs [.movie] w'.data = .ok () := needs_eq_ok (by simpa using hmovie)
  have hamount : needsAmount [.movie] "worldwide_gross_num" w'.data = .ok () := by
    rw [needsAmount, hneeds, houtcome.hasAmount, if_pos hnormalizable.hasAmount]
    rfl
  have hsome : ∀ m ∈ companyMovies w'.data, m.productionCompany ≠ none :=
    fun m hm => productionCompany_ne_none hm
  have hgross : ∀ m ∈ (companyMovies w'.data).filter hasGross, m.productionCompany ≠ none :=
    fun m hm => hsome m (List.mem_of_mem_filter hm)
  exact {
    durations := exists_reports (by simp [catalog]) hw hneeds hsome id
      (fun _ => List.Subset.refl _) (fun _ => rfl) le_rfl
    amounts := exists_reports (by simp [catalog]) hw hamount hgross id
      (fun _ => List.Subset.refl _) (fun _ => rfl) le_rfl
    highest := exists_reports (by simp [catalog]) hw hamount hsome (List.take 5)
      (fun _ => List.take_subset _ _) (fun _ => rfl) le_rfl
    mem := fun company => by simpa using exists_company_iff houtcome (fun _ => True) company
    memGross := fun company => by
      simpa [and_assoc] using exists_company_iff houtcome (hasGross · = true) company
    missing := by
      rintro company ⟨m, hm, hcompany⟩
      exact isMissing_iff_of_ne (trimBlank_ne_of_outcome houtcome hm hcompany)
    agree := forall_isMissing_iff houtcome }

/-- A film in migrated tables; its company is the word for a missing text between blanks. -/
def paddedFilm : Store :=
  { (Migration.run.on (World.inMemory .empty [some ⟨0⟩])).2.data with
    movie := some [⟨1, ⟨some "tt1", "One", .null, none, .int 90, none, some "$ 100", none,
      some " Unknown ", .null⟩⟩] }

theorem listsCompanies_of_paddedFilm :
    ∃ r w', (Normalize.run .quiet []).on (World.inMemory paddedFilm [some ⟨0⟩]) = (.ok r, w') ∧
      ListsCompanies (paddedFilm.rowsOf .movie) w' ∧ isMissing (some " Unknown ") = true ∧
      ∃ entries : List (String × Cell), (" Unknown ", .real (.finite 90)) ∈ entries ∧
        averageDuration.Reports w' (sortBy [.down 1, .up 0] (entries.map groupCells)) := by
  let m : MovieRow := ⟨some "tt1", "One", .null, none, .int 90, some "Unknown", some "$ 100",
    some "Unknown", some " Unknown ", .real (.finite 100)⟩
  have hreturns : (Normalize.run .quiet []).returns (World.inMemory paddedFilm [some ⟨0⟩])
      (fun _ w' => companyMovies w'.data = [m]) = true := by
    decide +kernel
  obtain ⟨r, w', hon, hfound⟩ := Act.exists_on_of_returns hreturns
  have hlists := listsCompanies_of_on_run (w := World.inMemory paddedFilm [some ⟨0⟩]) hon
  obtain ⟨entries, htotals, hreports⟩ := hlists.durations
  rw [of_decide_eq_true hfound] at htotals
  have hlisted : (" Unknown ", .real (.finite 90)) ∈ entries :=
    (htotals.mem _ _).2 ⟨⟨m, List.mem_singleton_self m, rfl⟩, by decide +kernel⟩
  exact ⟨r, w', hon, hlists, by decide +kernel, entries, hlisted, hreports⟩

end Query.Companies
end FilmReport
