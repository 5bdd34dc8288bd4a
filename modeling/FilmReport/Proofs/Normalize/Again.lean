import FilmReport.Proofs.Normalize.Outcome

/-!
Normalizing again. What a run writes for missing texts counts as missing when it is read again, so a
normalized store is normalized already, and a second run finds the same amounts and memberships and
nothing to fill but the missing amounts.
-/

set_option autoImplicit false
set_option relaxedAutoImplicit false

namespace FilmReport.Normalize

open Store Act

theorem isMissing_missingWord : isMissing (some missingWord) = true := by
  decide +kernel

theorem isBlankText_missingWord : isBlankText (some missingWord) = false := by
  decide +kernel

theorem isMissing_of_isBlankText {text : Option String} (h : isBlankText text = true) :
    isMissing text = true := by
  cases text with
  | none => rfl
  | some s => exact Bool.or_eq_true_iff.2 (.inl h)

theorem isBlankText_filledText (text : Option String) : isBlankText (filledText text) = false := by
  rw [filledText]
  split
  · exact isBlankText_missingWord
  · next h => exact Bool.eq_false_iff.2 h

@[simp]
theorem filledText_filledText (text : Option String) :
    filledText (filledText text) = filledText text := by
  rw [filledText, isBlankText_filledText]
  rfl

theorem read_of_isMissing {text : Option String} (h : isMissing text = true) :
    Amount.read text = .absent := by
  cases text with
  | none => rfl
  | some s => rw [Amount.read, if_pos h]

theorem split_of_isMissing {text : Option String} (h : isMissing text = true) (id : String)
    (options : SplitOptions) : split id text options = [] := by
  cases text with
  | none => rfl
  | some s => rw [split, if_pos h]

@[simp]
theorem read_filledText (text : Option String) :
    Amount.read (filledText text) = Amount.read text := by
  rw [filledText]
  split
  · next h =>
    rw [read_of_isMissing isMissing_missingWord,
      read_of_isMissing (isMissing_of_isBlankText h)]
  · rfl

@[simp]
theorem split_filledText (id : String) (text : Option String) (options : SplitOptions) :
    split id (filledText text) options = split id text options := by
  rw [filledText]
  split
  · next h =>
    rw [split_of_isMissing isMissing_missingWord,
      split_of_isMissing (isMissing_of_isBlankText h)]
  · rfl

@[simp]
theorem normalMovie_normalMovie (m : MovieRow) : normalMovie (normalMovie m) = normalMovie m := by
  simp [normalMovie]

theorem isNull_filledNumber {missing : Cell} (h : missing.isNull = false) (c : Cell) :
    (filledNumber missing c).isNull = false := by
  rw [filledNumber]
  split
  · exact h
  · next hc => exact Bool.eq_false_iff.2 hc

theorem filledNumber_filledNumber {missing : Cell} (h : missing.isNull = false) (c : Cell) :
    filledNumber missing (filledNumber missing c) = filledNumber missing c := by
  rw [filledNumber, isNull_filledNumber h]
  rfl

@[simp]
theorem filledRating_filledRating (r : RatingRow) :
    filledRating (filledRating r) = filledRating r := by
  have hreal : (Cell.real (.ofInt missingNumber)).isNull = false := rfl
  have hint : (Cell.int missingNumber).isNull = false := rfl
  simp only [filledRating, filledNumber_filledNumber hreal, filledNumber_filledNumber hint]

theorem membershipRows_normalMovie (kind : MembershipKind) (options : SplitOptions)
    (movies : List MovieRow) :
    membershipRows kind options (movies.map normalMovie) = membershipRows kind options movies := by
  refine membershipRows_map (f := normalMovie) (fun _ => rfl) (fun id m => ?_) movies
  cases kind <;> exact split_filledText id _ options

theorem rowsOf_movie_normalized (options : SplitOptions) (s : Store) :
    (normalized options s).rowsOf .movie = (s.rowsOf .movie).map normalMovie :=
  rowsOf_mapRows (t := .movie) rfl

theorem rowsOf_ratings_normalized (options : SplitOptions) (s : Store) :
    (normalized options s).rowsOf .ratings = (s.rowsOf .ratings).map filledRating :=
  rowsOf_mapRows (t := .ratings) rfl

theorem rebuiltRows_normalized (kind : MembershipKind) (options : SplitOptions) (s : Store) :
    rebuiltRows kind options ((normalized options s).rowsOf .movie) =
      rebuiltRows kind options (s.rowsOf .movie) := by
  rw [rowsOf_movie_normalized, rebuiltRows, membershipRows_normalMovie, ← rebuiltRows]

/-- A normalized store is normalized already. -/
theorem normalized_normalized (options : SplitOptions) (s : Store) :
    normalized options (normalized options s) = normalized options s := by
  have hmovie : (s.movie.map (mapRows normalMovie)).map (mapRows normalMovie) =
      s.movie.map (mapRows normalMovie) := by
    rw [map_mapRows, funext normalMovie_normalMovie]
  have hratings : (s.ratings.map (mapRows filledRating)).map (mapRows filledRating) =
      s.ratings.map (mapRows filledRating) := by
    rw [map_mapRows, funext filledRating_filledRating]
  rw [normalized, rebuiltRows_normalized, rebuiltRows_normalized]
  change ({ normalized options s with
    movie := (s.movie.map (mapRows normalMovie)).map (mapRows normalMovie)
    ratings := (s.ratings.map (mapRows filledRating)).map (mapRows filledRating) } : Store) = _
  rw [hmovie, hratings]
  rfl

/-- A normalized store gives the same amounts and warnings. -/
theorem coercionOf_normalized (options : SplitOptions) (s : Store) :
    coercionOf (normalized options s) = coercionOf s := by
  have hsources : ∀ movies : List MovieRow,
      Coercion.ofSources ((movies.map normalMovie).map (Source.ofMovie (·.grossIncome))) =
        Coercion.ofSources (movies.map (Source.ofMovie (·.grossIncome))) := by
    intro movies
    induction movies with
    | nil => rfl
    | cons m rest ih =>
      rw [List.map_cons, List.map_cons, List.map_cons, Coercion.ofSources, Coercion.ofSources, ih]
      simp only [Source.ofMovie, normalMovie, read_filledText]
  rw [coercionOf, coercionOf, rowsOf_movie_normalized, byId_map (f := normalMovie) fun _ => rfl,
    hsources]

/-- Gaps on which no condition depends can be filled where the rows with one meet the conditions. -/
theorem Gap.meetsAll_iff {t : Table} {gaps : List (Gap t)}
    (hset : ∀ g ∈ gaps, ∀ row, meetsConditions t (g.set row) = meetsConditions t row)
    (hgaps : gaps.Pairwise fun g h => ∀ row, h.isIn (g.step row) = h.isIn row)
    {rows : List (Numbered t.Row)} : MeetsAll gaps rows ↔ ∀ n ∈ rows,
      (∃ g ∈ gaps, g.isIn n.row = true) → meetsConditions t n.row = .ok () := by
  induction gaps generalizing rows with
  | nil =>
    constructor
    · rintro - n - ⟨g, hg, -⟩
      exact absurd hg List.not_mem_nil
    · intro _
      exact trivial
  | cons g rest ih =>
    obtain ⟨hset, hrest⟩ := List.forall_mem_cons.1 hset
    obtain ⟨hg, hgaps⟩ := List.pairwise_cons.1 hgaps
    have hstep : ∀ row, meetsConditions t (g.step row) = meetsConditions t row := by
      intro row
      rw [Gap.step]
      split
      · exact hset row
      · rfl
    rw [MeetsAll, ih hrest hgaps, Gap.fill_eq, mapRows]
    constructor
    · rintro ⟨hmeets, hall⟩ n hn ⟨h, hh, hin⟩
      rcases List.mem_cons.1 hh with rfl | hh
      · rw [← hset]
        exact hmeets n hn hin
      · have hlater := hall _ (List.mem_map_of_mem hn) ⟨h, hh, (hg h hh n.row).trans hin⟩
        rwa [hstep] at hlater
    · intro hall
      refine ⟨fun n hn hin => ?_, fun n hn => ?_⟩
      · rw [hset]
        exact hall n hn ⟨g, List.mem_cons_self, hin⟩
      · obtain ⟨m, hm, rfl⟩ := List.mem_map.1 hn
        rintro ⟨h, hh, hin⟩
        rw [hstep]
        exact hall m hm ⟨h, List.mem_cons_of_mem g hh, (hg h hh m.row).symm.trans hin⟩

/-- Where there are no gaps, there is nothing to fill. -/
theorem Gap.meetsAll_of_none {t : Table} {gaps : List (Gap t)} {rows : List (Numbered t.Row)}
    (h : ∀ g ∈ gaps, ∀ n ∈ rows, g.isIn n.row = false) : MeetsAll gaps rows := by
  induction gaps with
  | nil => exact trivial
  | cons g rest ih =>
    obtain ⟨hg, hrest⟩ := List.forall_mem_cons.1 h
    refine ⟨fun n hn hin => absurd hin ?_, ?_⟩
    · rw [hg n hn]
      exact Bool.false_ne_true
    · rw [Gap.fill, setWhere_of_none hg]
      exact ih hrest

theorem meetsAll_movieGaps {rows : List (Numbered MovieRow)} :
    Gap.MeetsAll movieGaps rows ↔ ∀ n ∈ rows,
      (∃ g ∈ movieGaps, g.isIn n.row = true) → meetsConditions .movie n.row = .ok () := by
  refine Gap.meetsAll_iff ?_ pairwise_movieGaps
  simp only [movieGaps, List.forall_mem_cons, List.not_mem_nil, false_implies, implies_true,
    and_true]
  exact ⟨fun _ => rfl, fun _ => rfl, fun _ => rfl, fun _ => rfl, fun _ => rfl⟩

/-- A normalized movie lacks nothing but an amount, and lacks it only if it did before. -/
theorem isIn_normalMovie {g : Gap .movie} (hg : g ∈ movieGaps) {m : MovieRow}
    (h : g.isIn (amounted (normalMovie m)) = true) : amountGap.isIn (amounted m) = true := by
  have hblank : ∀ {name get set}, ∀ text,
      get (amounted (normalMovie m)) = filledText text →
      (textGap name get set).isIn (amounted (normalMovie m)) ≠ true := by
    intro name get set text hget hin
    have hisBlank : isBlankText (get (amounted (normalMovie m))) = true :=
      (selects_text rfl _).symm.trans hin
    rw [hget, isBlankText_filledText] at hisBlank
    cases hisBlank
  simp only [movieGaps, List.mem_cons, List.not_mem_nil, or_false] at hg
  rcases hg with rfl | rfl | rfl | rfl | rfl
  · exact absurd h (hblank m.country rfl)
  · exact absurd h (hblank m.languages rfl)
  · exact absurd h (hblank m.productionCompany rfl)
  · exact absurd h (hblank m.grossIncome rfl)
  · have hamount : (amounted (normalMovie m)).grossAmount = (amounted m).grossAmount :=
      congrArg Amount.cell (read_filledText m.grossIncome)
    exact (congrArg amountGap.rule.selects hamount).symm.trans h

theorem isIn_filledRating {g : Gap .ratings} (hg : g ∈ ratingGaps) (r : RatingRow) :
    g.isIn (filledRating r) = false := by
  simp only [ratingGaps, List.mem_cons, List.not_mem_nil, or_false] at hg
  rcases hg with rfl | rfl | rfl <;> exact (selects_number rfl _).trans (isNull_filledNumber rfl _)

/-- What could be normalized can be normalized again. -/
theorem normalizable_normalized {options : SplitOptions} {s : Store}
    (h : Normalizable options s) : Normalizable options (normalized options s) where
  hasAmount := h.hasAmount
  movie := (Option.isSome_map).trans h.movie
  ratings := (Option.isSome_map).trans h.ratings
  staged kind := by cases kind <;> rfl
  published kind := by cases kind <;> rfl
  identified := by
    rw [rowsOf_movie_normalized]
    exact (identified_map (f := normalMovie) fun _ => rfl).2 h.identified
  stageable kind := by
    rw [rowsOf_movie_normalized, membershipRows_normalMovie]
    exact (stageable_congr s _).2 (h.stageable kind)
  publishable kind := by
    rw [rowsOf_movie_normalized, membershipRows_normalMovie]
    refine (publishable_congr fun t => ?_).2 (h.publishable kind)
    exact sameParents_of_mapRows (f := normalMovie) (fun _ => rfl) rfl rfl
  fillableMovies := by
    obtain ⟨movies, hmovies⟩ := Option.isSome_iff_exists.1 h.movie
    have hbefore := h.fillableMovies
    change Gap.MeetsAll movieGaps
      (mapRows amounted ((s.movie.map (mapRows normalMovie)).getD []))
    rw [hmovies, Option.getD_some, meetsAll_movieGaps] at hbefore
    rw [hmovies, Option.map_some, Option.getD_some, meetsAll_movieGaps]
    intro n hn hgap
    obtain ⟨n', hn', rfl⟩ := List.mem_map.1 hn
    obtain ⟨m, hm, rfl⟩ := List.mem_map.1 hn'
    obtain ⟨g, hg, hin⟩ := hgap
    have hamount : amountGap.isIn (amounted m.row) = true := isIn_normalMovie hg hin
    exact hbefore ⟨m.number, amounted m.row⟩ (List.mem_map_of_mem hm)
      ⟨amountGap, by simp [movieGaps], hamount⟩
  fillableRatings := by
    obtain ⟨ratings, hratings⟩ := Option.isSome_iff_exists.1 h.ratings
    change Gap.MeetsAll ratingGaps ((s.ratings.map (mapRows filledRating)).getD [])
    rw [hratings, Option.map_some, Option.getD_some]
    refine Gap.meetsAll_of_none fun g hg n hn => ?_
    obtain ⟨r, -, rfl⟩ := List.mem_map.1 hn
    exact isIn_filledRating hg r.row

/-- What the standard rules count where nothing is missing but some amounts. -/
def amountsMissing (missing : Nat) : Fields :=
  [("movie.country", .ofNat 0), ("movie.languages", .ofNat 0),
   ("movie.production_company", .ofNat 0), ("movie.worldwide_gross_income", .ofNat 0),
   ("movie.worldwide_gross_num", .ofNat missing), ("ratings.avg_rating", .ofNat 0),
   ("ratings.total_votes", .ofNat 0), ("ratings.median_rating", .ofNat 0)]

theorem counts_normalized (movies : List MovieRow) (ratings : List RatingRow) (missing : Nat) :
    movieCounts (movies.map normalMovie) missing ++ ratingCounts (ratings.map filledRating) =
      amountsMissing missing := by
  have hnone : ∀ {ρ : Type} {f : ρ → ρ} {p : ρ → Bool} (rows : List ρ), (∀ row, p (f row) = false) →
      (rows.map f).countP p = 0 := by
    intro ρ f p rows hp
    rw [List.countP_map, List.countP_eq_zero]
    intro row _
    rw [Function.comp_apply, hp]
    exact Bool.false_ne_true
  rw [movieCounts, textCounts, ratingCounts]
  rw [hnone movies fun m => isBlankText_filledText m.country,
    hnone movies fun m => isBlankText_filledText m.languages,
    hnone movies fun m => isBlankText_filledText m.productionCompany,
    hnone movies fun m => isBlankText_filledText m.grossIncome,
    hnone ratings fun r => isNull_filledNumber rfl r.avgRating,
    hnone ratings fun r => isNull_filledNumber rfl r.totalVotes,
    hnone ratings fun r => isNull_filledNumber rfl r.medianRating]
  rfl

/-- A second run counts what the first one did but for what this filled. -/
theorem progressOf_normalized (options : SplitOptions) (s : Store) :
    progressOf options (normalized options s) =
      { progressOf options s with
        standardized := amountsMissing ((coercionOf s).absent + (coercionOf s).invalid) } := by
  rw [progressOf, coercionOf_normalized, rowsOf_movie_normalized, rowsOf_ratings_normalized,
    counts_normalized, membershipRows_normalMovie, membershipRows_normalMovie]
  rfl

theorem normalizable_withRun {options : SplitOptions} {s : Store} (row : RunRow)
    (h : Normalizable options s) : Normalizable options (withRun row s) where
  hasAmount := h.hasAmount
  movie := h.movie
  ratings := h.ratings
  staged kind := by
    cases kind with
    | country => exact h.staged .country
    | language => exact h.staged .language
  published kind := by
    cases kind with
    | country => exact h.published .country
    | language => exact h.published .language
  identified := h.identified
  stageable kind := (stageable_congr s _).2 (h.stageable kind)
  publishable kind := by
    refine (publishable_congr fun t => SameParents.of_get fun ref href => ?_).2 (h.publishable kind)
    rcases parent_eq t ref href with hparent | hparent <;> rw [hparent] <;> rfl
  fillableMovies := h.fillableMovies
  fillableRatings := h.fillableRatings

/-- The tables that normalization leaves as they are once it was done. -/
def settledTables : List Table :=
  [.movie, .ratings, .movieCountry, .stagedCountry, .movieLanguage, .stagedLanguage]

/-- A run that answers `r'` and leaves `s'` repeats one that answered `r` and left `s`. -/
structure Repeats (s : Store) (r r' : Run) (s' : Store) : Prop where
  tables : ∀ t ∈ settledTables, s'.get t = s.get t
  parsed : r'.progress.grossParsed = r.progress.grossParsed
  absent : r'.progress.grossAbsent = r.progress.grossAbsent
  invalid : r'.progress.grossInvalid = r.progress.grossInvalid
  warnings : r'.warnings = r.warnings
  countryRows : r'.progress.countryRows = r.progress.countryRows
  languageRows : r'.progress.languageRows = r.progress.languageRows
  standardized : r'.progress.standardized =
    amountsMissing (r.progress.grossAbsent + r.progress.grossInvalid)

/-- After a run that has an answer and did not get the last of all numbers, another run with the
same options and a clock that ticks has an answer too and repeats it. -/
theorem repeats_of_on_run {logger : Journal.Logger} {given : Fields} {w w' : World} {r : Run}
    (h : (run logger given).on w = (.ok r, w')) (hid : r.runId < 9223372036854775807)
    (logger' : Journal.Logger) {clock : List (Option Calendar.Instant)}
    (hclock : (w'.timed clock).Ticks) :
    ∃ r' w'', (run logger' given).on (w'.timed clock) = (.ok r', w'') ∧
      Repeats w'.data r r' w''.data := by
  obtain ⟨options, s, hresolve, hready, hperformed, -, hrecorded, hcontinues⟩ := of_on_run h
  obtain ⟨hnormalizable, hx, rfl⟩ := performed_iff.1 hperformed
  obtain ⟨hprogress, hwarnings⟩ := Prod.mk.inj hx
  obtain ⟨hruns, hnumber, hstorable, hdata⟩ := hrecorded
  have hready' : (w'.timed clock).Ready :=
    ⟨(hcontinues.ready.2 hready).obstacle, (hcontinues.ready.2 hready).refusal⟩
  have hagain : Normalizable options w'.data := by
    rw [hdata]
    exact normalizable_withRun _ (normalizable_normalized hnormalizable)
  have hsame : normalized options w'.data = w'.data := by
    rw [hdata]
    exact congrArg (withRun _) (normalized_normalized options w.data)
  have hnext : runNumber w'.data = r.runId + 1 := by
    rw [hdata]
    exact runNumber_withRun hruns hnumber
  have hfree : Cell.isStorable (runNumber (normalized options w'.data)) = true := by
    rw [hsame, hnext]
    simp only [Cell.isStorable, Bool.and_eq_true, decide_eq_true_eq] at hstorable ⊢
    omega
  have hruns' : (normalized options w'.data).normalizationRuns.isSome := by
    rw [hsame, hdata]
    exact Option.isSome_map.trans hruns
  obtain ⟨r', w'', hon, hprogress', hwarnings'⟩ := exists_on_run logger' hresolve hready' hclock
    (performed_iff.2 ⟨hagain, rfl, rfl⟩) hruns' hfree
  obtain ⟨options', s', hresolve', -, hperformed', -, ⟨-, -, -, hdata'⟩, -⟩ := of_on_run hon
  obtain rfl : options = options' := Except.ok.inj (hresolve.symm.trans hresolve')
  obtain ⟨-, -, rfl⟩ := performed_iff.1 hperformed'
  rw [World.data_timed] at hprogress' hwarnings' hdata'
  have hafter : r'.progress = { r.progress with
      standardized := amountsMissing (r.progress.grossAbsent + r.progress.grossInvalid) } := by
    rw [hprogress', hdata, hprogress]
    exact progressOf_normalized options w.data
  refine ⟨r', w'', hon, ?_⟩
  rw [hdata', hsame]
  exact {
    tables := by
      intro t ht
      simp only [settledTables, List.mem_cons, List.not_mem_nil, or_false] at ht
      rcases ht with rfl | rfl | rfl | rfl | rfl | rfl <;> rfl
    parsed := by rw [hafter]
    absent := by rw [hafter]
    invalid := by rw [hafter]
    warnings := by
      rw [hwarnings', hwarnings, hdata]
      exact congrArg Coercion.warnings (coercionOf_normalized options w.data)
    countryRows := by rw [hafter]
    languageRows := by rw [hafter]
    standardized := by rw [hafter] }

theorem repeats_of_staleFilm :
    ∃ r w' r' w'', (run .quiet []).on (World.inMemory staleFilm [some ⟨0⟩]) = (.ok r, w') ∧
      r.runId < 9223372036854775807 ∧ (w'.timed [some ⟨0⟩]).Ticks ∧
      (run .quiet []).on (w'.timed [some ⟨0⟩]) = (.ok r', w'') ∧ Repeats w'.data r r' w''.data := by
  have hfirst : (run .quiet []).returns (World.inMemory staleFilm [some ⟨0⟩])
      (fun r _ => decide (r.runId < 9223372036854775807)) = true := by
    decide +kernel
  obtain ⟨r, w', hon, hid⟩ := exists_on_of_returns hfirst
  have hid : r.runId < 9223372036854775807 := of_decide_eq_true hid
  have hclock : (w'.timed [some ⟨0⟩]).Ticks := by
    refine ⟨List.cons_ne_nil _ _, fun reading hreading => ?_⟩
    rw [List.mem_singleton.1 hreading]
    rfl
  obtain ⟨r', w'', hagain, hrepeats⟩ := repeats_of_on_run hon hid .quiet hclock
  exact ⟨r, w', r', w'', hon, hid, hclock, hagain, hrepeats⟩

/-- The film when the last of its runs had the last number but one. -/
def lastNumbers : Store :=
  { staleFilm with
    normalizationRuns :=
      some [⟨1, RunRecord.row ⟨.completed, "", "", .start, .standard, none⟩ 9223372036854775806⟩] }

/-- After a run that gets the last of all numbers, another one cannot be recorded. -/
theorem not_repeats_of_lastNumbers :
    ∃ r w' f w'', (run .quiet []).on (World.inMemory lastNumbers [some ⟨0⟩]) = (.ok r, w') ∧
      (run .quiet []).on w' = (.error (.fault f), w'') ∧ f.code = .lineageFailed := by
  have hruns : (run .quiet []).returns (World.inMemory lastNumbers [some ⟨0⟩])
      (fun _ w' => (run .quiet []).faults w' fun f _ => decide (f.code = .lineageFailed)) =
        true := by
    decide +kernel
  obtain ⟨r, w', hon, hfaults⟩ := exists_on_of_returns hruns
  obtain ⟨f, w'', hagain, hcode⟩ := exists_on_of_faults hfaults
  exact ⟨r, w', f, w'', hon, hagain, of_decide_eq_true hcode⟩

end FilmReport.Normalize
