import FilmReport.Proofs.Normalize.Run

/-!
The normalized store: what the stages of a run make of a store as one function of it, and when they
can be done.
-/

set_option autoImplicit false
set_option relaxedAutoImplicit false

namespace FilmReport.Normalize

open Store Act

/-- The amount that a movie gets: what its text says, or the number for missing numbers. -/
def Amount.settled : Amount → Cell
  | .parsed cents => .real (units cents)
  | _ => .real (.ofInt missingNumber)

/-- A movie with the amount that its text gives. -/
def amounted (m : MovieRow) : MovieRow :=
  { m with grossAmount := (Amount.read m.grossIncome).cell }

def normalMovie (m : MovieRow) : MovieRow :=
  { m with
    country := filledText m.country
    languages := filledText m.languages
    productionCompany := filledText m.productionCompany
    grossIncome := filledText m.grossIncome
    grossAmount := (Amount.read m.grossIncome).settled }

theorem filledMovie_amounted (m : MovieRow) : filledMovie (amounted m) = normalMovie m := by
  have hamount : filledNumber (.real (.ofInt missingNumber)) (Amount.read m.grossIncome).cell =
      (Amount.read m.grossIncome).settled := by
    cases Amount.read m.grossIncome <;> rfl
  rw [filledMovie, normalMovie, ← hamount]
  rfl

theorem byId_map {f : MovieRow → MovieRow} (hf : ∀ m, (f m).id = m.id) (movies : List MovieRow) :
    byId (movies.map f) = (byId movies).map f := by
  rw [byId, byId, orderBy, orderBy, List.map_mergeSort]
  intro a _ b _
  rw [hf, hf]

/-- The memberships of movies, movie by movie in the order of their identifiers. -/
theorem membershipRows_eq (kind : MembershipKind) (options : SplitOptions)
    (movies : List MovieRow) :
    membershipRows kind options movies = (byId movies).flatMap fun m =>
      (split (m.id.getD "") (kind.source m) options).map Membership.row := by
  rw [membershipRows, memberships, sourcesOf, List.flatMap_map, List.map_flatMap]
  rfl

/-- What a movie is changed to does not matter if it keeps its identifier and its memberships. -/
theorem membershipRows_map {kind : MembershipKind} {options : SplitOptions}
    {f : MovieRow → MovieRow} (hid : ∀ m, (f m).id = m.id)
    (hsplit : ∀ id m, split id (kind.source (f m)) options = split id (kind.source m) options)
    (movies : List MovieRow) :
    membershipRows kind options (movies.map f) = membershipRows kind options movies := by
  rw [membershipRows_eq, membershipRows_eq, byId_map hid, List.flatMap_map]
  refine congrArg (fun g => (byId movies).flatMap g) (funext fun m => ?_)
  rw [hid, hsplit]

theorem membershipRows_amounted (kind : MembershipKind) (options : SplitOptions)
    (movies : List MovieRow) :
    membershipRows kind options (movies.map amounted) = membershipRows kind options movies := by
  refine membershipRows_map (f := amounted) (fun _ => rfl) (fun id m => ?_) movies
  cases kind <;> rfl

theorem identified_map {f : MovieRow → MovieRow} (hf : ∀ m, (f m).id = m.id)
    {movies : List MovieRow} : Source.Identified (movies.map f) ↔ Source.Identified movies := by
  constructor
  · intro h m hm
    have hfm := h (f m) (List.mem_map_of_mem hm)
    rwa [hf] at hfm
  · intro h m hm
    obtain ⟨m', hm', rfl⟩ := List.mem_map.1 hm
    rw [hf]
    exact h m' hm'

theorem map_row_mapRows {ρ : Type} (f : ρ → ρ) (rows : List (Numbered ρ)) :
    (mapRows f rows).map (·.row) = (rows.map (·.row)).map f := by
  rw [mapRows, List.map_map, List.map_map]
  rfl

/-- Where the rows of a table are changed each for itself, so are those that are read. -/
theorem rowsOf_mapRows {t : Table} {s s' : Store} {f : t.Row → t.Row}
    (h : s'.get t = (s.get t).map (mapRows f)) : s'.rowsOf t = (s.rowsOf t).map f := by
  rw [rowsOf, rowsOf, h]
  cases s.get t with
  | none => rfl
  | some rows => exact map_row_mapRows f rows

def rebuiltRows (kind : MembershipKind) (options : SplitOptions) (movies : List MovieRow) :
    List (Numbered MembershipRow) :=
  numberedFrom 1 (byPlace (membershipRows kind options movies))

/-- The store as the stages of a run leave it. -/
def normalized (options : SplitOptions) (s : Store) : Store :=
  { s with
    movie := s.movie.map (mapRows normalMovie)
    ratings := s.ratings.map (mapRows filledRating)
    movieCountry := some (rebuiltRows .country options (s.rowsOf .movie))
    stagedCountry := some []
    movieLanguage := some (rebuiltRows .language options (s.rowsOf .movie))
    stagedLanguage := some [] }

/-- The store as it is before its gaps are filled. -/
def rebuilt (options : SplitOptions) (s : Store) : Store :=
  { s with
    movie := s.movie.map (mapRows amounted)
    movieCountry := some (rebuiltRows .country options (s.rowsOf .movie))
    stagedCountry := some []
    movieLanguage := some (rebuiltRows .language options (s.rowsOf .movie))
    stagedLanguage := some [] }

theorem filled_rebuilt (options : SplitOptions) (s : Store) :
    filled (rebuilt options s) = normalized options s := by
  have hmovie : (s.movie.map (mapRows amounted)).map (mapRows filledMovie) =
      s.movie.map (mapRows normalMovie) := by
    rw [map_mapRows, funext filledMovie_amounted]
  rw [normalized, ← hmovie]
  rfl

/-- Texts give amounts or none: none where the amount is missing. -/
theorem countP_amounted (movies : List MovieRow) :
    (movies.map amounted).countP (fun m => m.grossAmount.isNull) =
      (Coercion.ofSources (movies.map (Source.ofMovie (·.grossIncome)))).absent +
        (Coercion.ofSources (movies.map (Source.ofMovie (·.grossIncome)))).invalid := by
  induction movies with
  | nil => rfl
  | cons m rest ih =>
    rw [List.map_cons, List.map_cons, List.countP_cons, ih, Coercion.ofSources]
    have hread : (amounted m).grossAmount = (Amount.read m.grossIncome).cell := rfl
    rw [hread, show (Source.ofMovie (·.grossIncome) m).raw = m.grossIncome from rfl]
    cases Amount.read m.grossIncome with
    | absent => simp only [Amount.cell, Cell.isNull, if_true]; omega
    | parsed cents => simp [Amount.cell, Cell.isNull]
    | invalid raw flaw => simp only [Amount.cell, Cell.isNull, if_true]; omega

theorem movieCounts_amounted (movies : List MovieRow) :
    movieCounts (movies.map amounted)
        ((movies.map amounted).countP fun m => m.grossAmount.isNull) =
      movieCounts movies
        ((Coercion.ofSources ((byId movies).map (Source.ofMovie (·.grossIncome)))).absent +
          (Coercion.ofSources ((byId movies).map (Source.ofMovie (·.grossIncome)))).invalid) := by
  have hperm : ((byId movies).map amounted).Perm (movies.map amounted) :=
    (orderBy_perm _ movies).map amounted
  have htexts : textCounts (movies.map amounted) = textCounts movies := by
    simp only [textCounts, List.countP_map]
    rfl
  rw [movieCounts, movieCounts, htexts, ← countP_amounted, hperm.countP_eq]

/-- What the texts of the movies of a store give. -/
def coercionOf (s : Store) : Coercion :=
  .ofSources ((byId (s.rowsOf .movie)).map (Source.ofMovie (·.grossIncome)))

def progressOf (options : SplitOptions) (s : Store) : Progress where
  grossParsed := (coercionOf s).parsed
  grossAbsent := (coercionOf s).absent
  grossInvalid := (coercionOf s).invalid
  countryRows := (membershipRows .country options (s.rowsOf .movie)).length
  languageRows := (membershipRows .language options (s.rowsOf .movie)).length
  standardized :=
    movieCounts (s.rowsOf .movie) ((coercionOf s).absent + (coercionOf s).invalid) ++
      ratingCounts (s.rowsOf .ratings)

/-- A store for which all stages of a run can be done. -/
structure Normalizable (options : SplitOptions) (s : Store) : Prop where
  hasAmount : s.hasAmount = true
  movie : s.movie.isSome
  ratings : s.ratings.isSome
  staged : ∀ kind, (s.stagedOf kind).isSome
  published : ∀ kind, (s.publishedOf kind).isSome
  identified : Source.Identified (s.rowsOf .movie)
  stageable : ∀ kind, s.Stageable (membershipRows kind options (s.rowsOf .movie)) kind
  publishable :
    ∀ kind, s.Publishable (byPlace (membershipRows kind options (s.rowsOf .movie))) kind
  fillableMovies : Gap.MeetsAll movieGaps (mapRows amounted (s.movie.getD []))
  fillableRatings : Gap.MeetsAll ratingGaps (s.ratings.getD [])

theorem setAmounts_eq (s : Store) :
    setAmounts s = { s with movie := s.movie.map (mapRows amounted) } := rfl

/-- Movies that keep their identifiers are as good to refer to as before. -/
theorem sameParents_of_mapRows {t : Table} {s s' : Store} {f : MovieRow → MovieRow}
    (hf : ∀ m, (f m).id = m.id) (hmovie : s'.movie = s.movie.map (mapRows f))
    (hnames : s'.names = s.names) : SameParents t s s' := by
  intro ref href
  rcases parent_eq t ref href with h | h <;> rw [h]
  · constructor
    · change s'.movie.isSome = s.movie.isSome
      rw [hmovie, Option.isSome_map]
    · change (s'.rowsOf .movie).filterMap (·.id) = (s.rowsOf .movie).filterMap (·.id)
      rw [rowsOf_mapRows (t := .movie) hmovie, List.filterMap_map]
      exact congrArg (fun g => (s.rowsOf .movie).filterMap g) (funext hf)
  · constructor
    · change s'.names.isSome = s.names.isSome
      rw [hnames]
    · change ((s'.names.getD []).map (·.row)).filterMap (·.id) =
        ((s.names.getD []).map (·.row)).filterMap (·.id)
      rw [hnames]

/-- What is staged refers to nothing. -/
theorem stageable_congr {kind : MembershipKind} {rows : List MembershipRow} (s s' : Store) :
    s'.Stageable rows kind ↔ s.Stageable rows kind := by
  cases kind with
  | country =>
    have h : ∀ u v : Store, SameParents .stagedCountry u v :=
      fun _ _ ref href => absurd href List.not_mem_nil
    exact ⟨(h s' s).admitsAll, (h s s').admitsAll⟩
  | language =>
    have h : ∀ u v : Store, SameParents .stagedLanguage u v :=
      fun _ _ ref href => absurd href List.not_mem_nil
    exact ⟨(h s' s).admitsAll, (h s s').admitsAll⟩

theorem publishable_congr {kind : MembershipKind} {rows : List MembershipRow} {s s' : Store}
    (h : ∀ t, SameParents t s s') : s'.Publishable rows kind ↔ s.Publishable rows kind := by
  cases kind with
  | country => exact ⟨(h .movieCountry).symm.admitsAll, (h .movieCountry).admitsAll⟩
  | language => exact ⟨(h .movieLanguage).symm.admitsAll, (h .movieLanguage).admitsAll⟩

theorem rebuilt_amounted_iff (kind : MembershipKind) {options : SplitOptions} {s t s' : Store}
    {r : Rebuild} {movies : List (Numbered MovieRow)} (hmovies : s.movie = some movies)
    (hmovie : t.movie = some (mapRows amounted movies)) (hnames : t.names = s.names)
    (hidentified : Source.Identified (movies.map (·.row))) :
    Rebuilt kind options t r s' ↔ (t.stagedOf kind).isSome ∧ (t.publishedOf kind).isSome ∧
      s.Stageable (membershipRows kind options (movies.map (·.row))) kind ∧
      s.Publishable (byPlace (membershipRows kind options (movies.map (·.row)))) kind ∧
      r = { Rebuild.ofSources kind (sourcesOf kind ((movies.map (·.row)).map amounted)) options with
        insertedRows := (membershipRows kind options (movies.map (·.row))).length } ∧
      s' = (t.withPublished (rebuiltRows kind options (movies.map (·.row))) kind).withStaged []
        kind := by
  have hsame : ∀ u, SameParents u s t := fun u =>
    sameParents_of_mapRows (f := amounted) (fun _ => rfl) (by rw [hmovie, hmovies]; rfl) hnames
  constructor
  · rintro ⟨movies', hmovies', hstaged, hpublished, -, hstageable, hpublishable, rfl, rfl⟩
    obtain rfl := Option.some.inj (hmovie.symm.trans hmovies')
    rw [map_row_mapRows, membershipRows_amounted] at hstageable hpublishable ⊢
    exact ⟨hstaged, hpublished, (stageable_congr s t).1 hstageable,
      (publishable_congr hsame).1 hpublishable, rfl, rfl⟩
  · rintro ⟨hstaged, hpublished, hstageable, hpublishable, rfl, rfl⟩
    refine ⟨mapRows amounted movies, hmovie, hstaged, hpublished, ?_⟩
    rw [map_row_mapRows, membershipRows_amounted]
    exact ⟨(identified_map (f := amounted) fun _ => rfl).2 hidentified,
      (stageable_congr s t).2 hstageable, (publishable_congr hsame).2 hpublishable, rfl, rfl⟩

theorem rebuilt_eq {options : SplitOptions} {s : Store} {movies : List (Numbered MovieRow)}
    (h : s.movie = some movies) :
    ((((setAmounts s).withPublished (rebuiltRows .country options (movies.map (·.row)))
      .country).withStaged [] .country).withPublished
        (rebuiltRows .language options (movies.map (·.row))) .language).withStaged [] .language =
      rebuilt options s := by
  have hrows : s.rowsOf .movie = movies.map (·.row) := rowsOf_of_eq_some h
  rw [rebuilt, hrows]
  rfl

theorem movie_setAmounts {s : Store} {movies : List (Numbered MovieRow)}
    (h : s.movie = some movies) : (setAmounts s).movie = some (mapRows amounted movies) := by
  rw [setAmounts_eq, h]
  rfl

/-- Stages that were done could be done, and made the normalized store. -/
theorem normalizable_of_performed {options : SplitOptions} {s s' : Store}
    {x : Progress × List Fault} (h : Performed options s x s') : Normalizable options s ∧
      x = (progressOf options s, (coercionOf s).warnings) ∧ s' = normalized options s := by
  obtain ⟨c, s₁, country, s₂, language, s₃, counts,
    ⟨movies, hmovies, hamount, hidentified, rfl, rfl⟩, hcountry, hlanguage, happlied, rfl⟩ := h
  obtain ⟨hstaged, hpublished, hstageable, hpublishable, rfl, rfl⟩ :=
    (rebuilt_amounted_iff .country hmovies (movie_setAmounts hmovies) rfl hidentified).1 hcountry
  obtain ⟨hstaged', hpublished', hstageable', hpublishable', rfl, rfl⟩ :=
    (rebuilt_amounted_iff .language
      (t := ((setAmounts s).withPublished _ .country).withStaged [] .country) hmovies
      (movie_setAmounts hmovies) rfl hidentified).1 hlanguage
  rw [rebuilt_eq hmovies, appliedAll_standard_iff (s := rebuilt options s) hamount] at happlied
  obtain ⟨movies', ratings, hmovies', hratings, hmeets, hmeets', rfl, rfl⟩ := happlied
  obtain rfl := Option.some.inj (hmovies'.symm.trans (movie_setAmounts hmovies))
  have hratings' : s.ratings = some ratings := hratings
  have hrows : s.rowsOf .movie = movies.map (·.row) := rowsOf_of_eq_some hmovies
  have hrows' : s.rowsOf .ratings = ratings.map (·.row) := rowsOf_of_eq_some hratings'
  refine ⟨?_, ?_, filled_rebuilt options s⟩
  · exact {
      hasAmount := hamount
      movie := Option.isSome_of_eq_some hmovies
      ratings := Option.isSome_of_eq_some hratings'
      staged := by
        rintro (_ | _)
        · exact hstaged
        · exact hstaged'
      published := by
        rintro (_ | _)
        · exact hpublished
        · exact hpublished'
      identified := by
        rw [hrows]
        exact hidentified
      stageable := by
        rw [hrows]
        rintro (_ | _)
        · exact hstageable
        · exact hstageable'
      publishable := by
        rw [hrows]
        rintro (_ | _)
        · exact hpublishable
        · exact hpublishable'
      fillableMovies := by
        rw [hmovies]
        exact hmeets
      fillableRatings := by
        rw [hratings']
        exact hmeets' }
  · rw [progressOf, coercionOf, hrows, hrows', map_row_mapRows, movieCounts_amounted]

theorem performed_of_normalizable {options : SplitOptions} {s : Store}
    (h : Normalizable options s) :
    Performed options s (progressOf options s, (coercionOf s).warnings)
      (normalized options s) := by
  obtain ⟨movies, hmovies⟩ := Option.isSome_iff_exists.1 h.movie
  obtain ⟨ratings, hratings⟩ := Option.isSome_iff_exists.1 h.ratings
  have hrows : s.rowsOf .movie = movies.map (·.row) := rowsOf_of_eq_some hmovies
  have hrows' : s.rowsOf .ratings = ratings.map (·.row) := rowsOf_of_eq_some hratings
  have hidentified := h.identified
  have hstageable := h.stageable
  have hpublishable := h.publishable
  have hmeets := h.fillableMovies
  have hmeets' := h.fillableRatings
  rw [hrows] at hidentified hstageable hpublishable
  rw [hmovies] at hmeets
  rw [hratings] at hmeets'
  have hcountry :=
    (rebuilt_amounted_iff .country hmovies (movie_setAmounts hmovies) rfl hidentified).2
      ⟨h.staged .country, h.published .country, hstageable .country, hpublishable .country, rfl,
        rfl⟩
  have hlanguage := (rebuilt_amounted_iff .language
    (t := ((setAmounts s).withPublished (rebuiltRows .country options (movies.map (·.row)))
      .country).withStaged [] .country) hmovies (movie_setAmounts hmovies) rfl hidentified).2
    ⟨h.staged .language, h.published .language, hstageable .language, hpublishable .language,
      rfl, rfl⟩
  have happlied := (appliedAll_standard_iff (s := rebuilt options s) h.hasAmount).2
    ⟨mapRows amounted movies, ratings, movie_setAmounts hmovies, hratings, hmeets, hmeets', rfl,
      (filled_rebuilt options s).symm⟩
  rw [← rebuilt_eq hmovies] at happlied
  refine ⟨_, _, _, _, _, _, _, ⟨movies, hmovies, h.hasAmount, hidentified, rfl, rfl⟩, hcountry,
    hlanguage, happlied, ?_⟩
  rw [progressOf, coercionOf, hrows, hrows', map_row_mapRows, movieCounts_amounted]

/-- The stages of a run make of a store the normalized one, if they can be done. -/
theorem performed_iff {options : SplitOptions} {s s' : Store} {x : Progress × List Fault} :
    Performed options s x s' ↔ Normalizable options s ∧
      x = (progressOf options s, (coercionOf s).warnings) ∧ s' = normalized options s := by
  constructor
  · exact normalizable_of_performed
  · rintro ⟨h, rfl, rfl⟩
    exact performed_of_normalizable h

end FilmReport.Normalize
