import FilmReport.Migration
import FilmReport.Proofs.Normalize.Normal

/-!
What a run did, seen from its answer: all tables after it, and the counts and warnings of its
answer.
-/

set_option autoImplicit false
set_option relaxedAutoImplicit false

namespace FilmReport.Normalize

open Store Act

/-- The memberships of movies in a field, movie by movie. -/
def membershipsOf (kind : MembershipKind) (options : SplitOptions) (movies : List MovieRow) :
    List MembershipRow :=
  movies.flatMap fun m => (split (m.id.getD "") (kind.source m) options).map Membership.row

/-- The warning about a movie whose text is no amount. -/
def warningOf (m : MovieRow) : Option Fault :=
  match Amount.read m.grossIncome with
  | .invalid raw flaw => some (Coercion.warning (m.id.getD "") raw flaw)
  | _ => none

/-- The number of rows of a kind that a run published. -/
def Progress.published (p : Progress) : MembershipKind → Nat
  | .country => p.countryRows
  | .language => p.languageRows

/-- The tables in which a run writes. -/
def written : List Table :=
  [.movie, .ratings, .movieCountry, .stagedCountry, .movieLanguage, .stagedLanguage,
   .normalizationRuns, .sequences]

/-- What a run with an answer did: `s` is the store before it and `s'` the one after it. -/
structure Outcome (options : SplitOptions) (s : Store) (r : Run) (s' : Store) : Prop where
  movie : s'.movie = s.movie.map (mapRows normalMovie)
  ratings : s'.ratings = s.ratings.map (mapRows filledRating)
  /-- The memberships of all movies, as these were before, and no others. -/
  published : ∀ kind, ∃ rows, s'.publishedOf kind = some rows ∧
    (rows.map (·.row)).Perm (membershipsOf kind options (s.rowsOf .movie)) ∧
    rows.length = r.progress.published kind
  staged : ∀ kind, s'.stagedOf kind = some []
  /-- One record more, with a number greater than all others. -/
  runs : ∃ runs, s.normalizationRuns = some runs ∧
    s'.normalizationRuns =
      some (runs ++ [⟨nextNumber runs, (r.record options).row r.runId⟩]) ∧
    ∀ run ∈ runs, run.row.id < r.runId
  /-- The number of the record is the last that was given. -/
  sequences : s'.sequences = (s.giveLast .normalizationRuns r.runId).sequences
  others : ∀ t, t ∉ written → s'.get t = s.get t
  hasAmount : s'.hasAmount = s.hasAmount
  identified : Source.Identified (s.rowsOf .movie)
  total : r.progress.grossParsed + r.progress.grossAbsent + r.progress.grossInvalid =
    (s.rowsOf .movie).length
  parsed : r.progress.grossParsed =
    (s.rowsOf .movie).countP fun m => Amount.read m.grossIncome matches .parsed _
  absent : r.progress.grossAbsent =
    (s.rowsOf .movie).countP fun m => Amount.read m.grossIncome matches .absent
  /-- One warning for each text that is no amount, in the order of the identifiers. -/
  warnings : r.warnings = (byId (s.rowsOf .movie)).filterMap warningOf
  warned : r.warnings.length = r.progress.grossInvalid
  standardized : r.progress.standardized =
    movieCounts (s.rowsOf .movie) (r.progress.grossAbsent + r.progress.grossInvalid) ++
      ratingCounts (s.rowsOf .ratings)
  status : r.status = statusOf r.warnings

theorem Outcome.rowsOf_movie {options : SplitOptions} {s s' : Store} {r : Run}
    (h : Outcome options s r s') : s'.rowsOf .movie = (s.rowsOf .movie).map normalMovie :=
  rowsOf_mapRows (t := .movie) h.movie

theorem ofSources_eq (movies : List MovieRow) :
    Coercion.ofSources (movies.map (Source.ofMovie (·.grossIncome))) =
      ⟨movies.countP fun m => Amount.read m.grossIncome matches .parsed _,
       movies.countP fun m => Amount.read m.grossIncome matches .absent,
       movies.countP fun m => Amount.read m.grossIncome matches .invalid _ _,
       movies.filterMap warningOf⟩ := by
  induction movies with
  | nil => rfl
  | cons m rest ih =>
    rw [List.map_cons, Coercion.ofSources, ih, List.countP_cons, List.countP_cons,
      List.countP_cons, List.filterMap_cons, warningOf, Source.ofMovie]
    cases Amount.read m.grossIncome <;> rfl

/-- Every text gives an amount, is missing or is no amount. -/
theorem total_ofSources (sources : List Source) :
    (Coercion.ofSources sources).parsed + (Coercion.ofSources sources).absent +
      (Coercion.ofSources sources).invalid = sources.length := by
  induction sources with
  | nil => rfl
  | cons source rest ih =>
    rw [Coercion.ofSources, List.length_cons, ← ih]
    cases Amount.read source.raw <;> dsimp only <;> omega

/-- There are as many warnings as texts that are no amounts. -/
theorem length_warnings (sources : List Source) :
    (Coercion.ofSources sources).warnings.length = (Coercion.ofSources sources).invalid := by
  induction sources with
  | nil => rfl
  | cons source rest ih =>
    rw [Coercion.ofSources]
    cases Amount.read source.raw with
    | absent => exact ih
    | parsed cents => exact ih
    | invalid raw flaw => exact congrArg (· + 1) ih

theorem perm_membershipRows (kind : MembershipKind) (options : SplitOptions)
    (movies : List MovieRow) :
    (byPlace (membershipRows kind options movies)).Perm (membershipsOf kind options movies) := by
  rw [membershipRows_eq]
  exact (orderBy_perm _ _).trans ((orderBy_perm _ movies).flatMap_right _)

/-- A normalized store with a record more is what the run of the record made. -/
theorem outcome_of_normalizable {options : SplitOptions} {s : Store} {r : Run}
    (hs : Normalizable options s) (hprogress : r.progress = progressOf options s)
    (hwarnings : r.warnings = (coercionOf s).warnings) (hstatus : r.status = statusOf r.warnings)
    {s' : Store} (hrecorded : Recorded (r.record options) (normalized options s) r.runId s') :
    Outcome options s r s' := by
  obtain ⟨hsome, hid, -, rfl⟩ := hrecorded
  obtain ⟨runs, hruns⟩ := Option.isSome_iff_exists.1 hsome
  have hcoercion : coercionOf s = _ := ofSources_eq (byId (s.rowsOf .movie))
  have hperm := orderBy_perm (fun r => [SortKey.up (.ofText? r.id)]) (s.rowsOf .movie)
  exact {
    movie := rfl
    ratings := rfl
    published := by
      intro kind
      refine ⟨rebuiltRows kind options (s.rowsOf .movie), ?_, ?_, ?_⟩
      · cases kind <;> rfl
      · rw [rebuiltRows, map_row_numberedFrom]
        exact perm_membershipRows kind options (s.rowsOf .movie)
      · rw [rebuiltRows, length_numberedFrom, hprogress, byPlace, (orderBy_perm _ _).length_eq]
        cases kind <;> rfl
    staged := fun kind => by cases kind <;> rfl
    runs := by
      refine ⟨runs, hruns, ?_, fun run hrun => ?_⟩
      · change (normalized options s).normalizationRuns.map _ = _
        rw [hruns]
        rfl
      · rw [hid, runNumber_of_eq_some hruns]
        exact lt_nextRun _ (List.mem_map_of_mem hrun)
    sequences := rfl
    others := by
      intro t ht
      cases t <;> first | rfl | exact absurd (by decide) ht
    hasAmount := rfl
    identified := hs.identified
    total := by
      rw [hprogress]
      refine (total_ofSources _).trans ?_
      rw [List.length_map, byId, hperm.length_eq]
    parsed := by
      rw [hprogress, progressOf, hcoercion]
      exact hperm.countP_eq _
    absent := by
      rw [hprogress, progressOf, hcoercion]
      exact hperm.countP_eq _
    warnings := by rw [hwarnings, hcoercion]
    warned := by
      rw [hwarnings, hprogress]
      exact length_warnings _
    standardized := by rw [hprogress]; rfl
    status := hstatus }

/-- A run that has an answer found options in what it was given and did what these ask for. -/
theorem outcome_of_on_run {logger : Journal.Logger} {given : Fields} {w w' : World} {r : Run}
    (h : (run logger given).on w = (.ok r, w')) :
    ∃ options, SplitOptions.resolve given = .ok options ∧ Outcome options w.data r w'.data := by
  obtain ⟨options, s, hresolve, -, hperformed, hstatus, hrecorded, -⟩ := of_on_run h
  obtain ⟨hnormalizable, hx, rfl⟩ := performed_iff.1 hperformed
  obtain ⟨hprogress, hwarnings⟩ := Prod.mk.inj hx
  exact ⟨options, hresolve,
    outcome_of_normalizable hnormalizable hprogress hwarnings hstatus hrecorded⟩

/-- A film in migrated tables, with an amount, a country and a staged language of earlier runs. -/
def staleFilm : Store :=
  { (Migration.run.on (World.inMemory .empty [some ⟨0⟩])).2.data with
    movie := some [⟨1, ⟨some "tt1", "One", .null, none, .null, some " Norway ",
      some "$ 1,200.5", some " ", none, .int 7⟩⟩]
    ratings := some [⟨1, ⟨some "tt1", .null, .int 12, .null⟩⟩]
    movieCountry := some [⟨1, ⟨"tt1", .int 1, "Peru"⟩⟩]
    stagedLanguage := some [⟨1, ⟨"tt9", .int 2, "Quechua"⟩⟩] }

theorem outcome_of_staleFilm :
    ∃ r w' options, (run .quiet []).on (World.inMemory staleFilm [some ⟨0⟩]) = (.ok r, w') ∧
      SplitOptions.resolve [] = .ok options ∧ Outcome options staleFilm r w'.data := by
  have hreturns : (run .quiet []).returns (World.inMemory staleFilm [some ⟨0⟩])
      (fun _ _ => true) = true := by
    decide +kernel
  obtain ⟨r, w', hon, -⟩ := exists_on_of_returns hreturns
  obtain ⟨options, hresolve, houtcome⟩ := outcome_of_on_run hon
  exact ⟨r, w', options, hon, hresolve, houtcome⟩

end FilmReport.Normalize
