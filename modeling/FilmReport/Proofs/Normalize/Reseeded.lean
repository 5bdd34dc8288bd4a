import FilmReport.Proofs.Dataset.Seeded
import FilmReport.Proofs.Dataset.Written
import FilmReport.Proofs.Normalize.Again
import FilmReport.Proofs.Normalize.Numbers
import FilmReport.Proofs.Operation.Statements
import FilmReport.Proofs.Store.Avoided

/-!
Seeding and normalizing again. A second seeding of a dataset puts its texts and numbers back in
place of what the normalization made of them and leaves all other rows; the normalization of what it
leaves is the one that was there before (`Agrees.get_normalized`).
-/

set_option autoImplicit false
set_option relaxedAutoImplicit false

namespace FilmReport

open Act Store Dataset

/-- A statement that writes no records keeps keys. -/
theorem Statement.keepsKeys_of_uses {st : Statement} (h : ∀ kind cells, st ≠ .write kind cells)
    {s : Store} {c : Change} (hc : st.Uses s c) : c.KeepsKeys := by
  have hrefuse : ∀ {t : Table} {row : t.Row}, (Change.insert t .refuse row).KeepsKeys :=
    fun _ hf => by cases hf
  cases st with
  | write kind cells => exact absurd rfl (h kind cells)
  | stage kind staged =>
    obtain ⟨m, -, rfl⟩ := hc
    cases kind <;> exact hrefuse
  | publish kind =>
    obtain ⟨rows, -, row, -, rfl⟩ := hc
    cases kind <;> exact hrefuse
  | record r => obtain ⟨id, rfl⟩ | ⟨id, rfl⟩ := hc <;> first | exact hrefuse | exact trivial
  | rule r =>
    obtain ⟨t, -, rfl⟩ := hc
    exact trivial
  | migrate m => obtain rfl | ⟨t, rfl⟩ := hc <;> exact trivial
  | recordStep row =>
    obtain rfl := hc
    exact hrefuse
  | clear t =>
    obtain rfl := hc
    exact trivial
  | amounts =>
    obtain rfl := hc
    exact trivial
  | delete t column value =>
    obtain rfl := hc
    exact trivial
  | keepSteps =>
    obtain rfl := hc
    exact trivial

namespace Normalize

variable {options : SplitOptions} {s s' s₁ s₂ s₃ : Store}

/-- A run leaves a store after all migrations. -/
theorem isMigrated_of_on_run {logger : Journal.Logger} {given : Fields} {w w' : World} {r : Run}
    (hs : w.data.IsMigrated) (h : (run logger given).on w = (.ok r, w')) :
    w'.data.IsMigrated := by
  have hpreserves : ∀ st : Statement, (∀ kind cells, st ≠ .write kind cells) →
      st.Preserves IsMigrated := fun st hst => Statement.preserves_of_uses fun s c _ hc =>
    Change.preserves_isMigrated (Statement.keepsKeys_of_uses hst hc)
  have hkeeps : KeepsTo IsMigrated IsMigrated (run logger given) := by
    refine keepsTo_run (fun _ hs => hs) (fun r => hpreserves _ ?_) (fun st hst => hpreserves st ?_)
      logger given
    · exact fun _ _ h => Statement.noConfusion h
    · obtain rfl | ⟨kind, (rfl | ⟨staged, rfl⟩) | rfl | rfl | rfl⟩ | ⟨rule, -, rfl⟩ := hst <;>
        exact fun _ _ h => Statement.noConfusion h
  obtain ⟨options, s, -, -, hperformed, -, ⟨-, hid, hstorable, -⟩, -⟩ := of_on_run h
  obtain ⟨-, -, rfl⟩ := performed_iff.1 hperformed
  have hnumber : HasNumber w.data := fun _ => hid ▸ hstorable
  have hdata := (orderly_run logger given).data_of_keepsTo hkeeps (fun _ hs => hs) hnumber hs
  rw [h] at hdata
  exact hdata

/-- Stores whose movies and ratings have the same normal forms. -/
structure Agrees (s s' : Store) : Prop where
  movie : s'.movie.map (mapRows normalMovie) = s.movie.map (mapRows normalMovie)
  ratings : s'.ratings.map (mapRows filledRating) = s.ratings.map (mapRows filledRating)
  names : s'.names = s.names

theorem Gap.meetsAll_of_conditions {t : Table} {gaps : List (Gap t)}
    (hset : ∀ g ∈ gaps, ∀ row, g.isIn row = true → meetsConditions t row = .ok () →
      meetsConditions t (g.set row) = .ok ()) {rows : List (Numbered t.Row)}
    (h : ∀ n ∈ rows, meetsConditions t n.row = .ok ()) : MeetsAll gaps rows := by
  induction gaps generalizing rows with
  | nil => exact trivial
  | cons g rest ih =>
    obtain ⟨hg, hrest⟩ := List.forall_mem_cons.1 hset
    refine ⟨fun n hn hin => hg n.row hin (h n hn), ih hrest ?_⟩
    rw [Gap.fill_eq]
    refine List.forall_mem_map.2 fun n hn => ?_
    change meetsConditions t (g.step n.row) = .ok ()
    rw [Gap.step]
    split
    · next hin => exact hg n.row hin (h n hn)
    · exact h n hn

/-- A rating whose gap is filled meets the conditions that it met before. -/
theorem conditions_ratingGaps : ∀ g ∈ ratingGaps, ∀ r, g.isIn r = true →
    meetsConditions .ratings r = .ok () → meetsConditions .ratings (g.set r) = .ok () := by
  have hconditions : ∀ r : RatingRow, meetsConditions .ratings r = .ok () ↔
      (atLeast 0 r.avgRating && atMost 10 r.avgRating) = true ∧ atLeast 0 r.totalVotes = true ∧
        (atLeast 0 r.medianRating && atMost 10 r.medianRating) = true := fun r => by
    rw [meetsConditions_eq_ok]
    simp only [layout, ratingLayout, List.forall_mem_cons, List.not_mem_nil, false_implies,
      implies_true, and_true]
  have hreal : (atLeast 0 (.real (.ofInt missingNumber)) &&
      atMost 10 (.real (.ofInt missingNumber))) = true := by decide
  simp only [ratingGaps, List.forall_mem_cons, List.not_mem_nil, false_implies, implies_true,
    and_true, hconditions]
  exact ⟨fun r _ h => ⟨hreal, h.2⟩, fun r _ h => ⟨h.1, rfl, h.2.2⟩,
    fun r _ h => ⟨h.1, h.2.1, rfl⟩⟩

namespace Agrees

theorem rowsOf_movie (h : Agrees s s') :
    (s'.rowsOf .movie).map normalMovie = (s.rowsOf .movie).map normalMovie := by
  have hrows : (normalized .standard s').rowsOf .movie = (normalized .standard s).rowsOf .movie :=
    congrArg (fun rows => (rows.getD []).map (·.row)) h.movie
  rwa [rowsOf_movie_normalized, rowsOf_movie_normalized] at hrows

theorem membershipRows_eq (h : Agrees s s') (kind : MembershipKind) (options : SplitOptions) :
    membershipRows kind options (s'.rowsOf .movie) =
      membershipRows kind options (s.rowsOf .movie) := by
  rw [← membershipRows_normalMovie, h.rowsOf_movie, membershipRows_normalMovie]

theorem publishable_iff (h : Agrees s s') {kind : MembershipKind} {rows : List MembershipRow} :
    s'.Publishable rows kind ↔ s.Publishable rows kind := by
  -- Both are as good to refer to as what they are normalized to.
  have hself : ∀ u : Store, (normalized .standard u).Publishable rows kind ↔
      u.Publishable rows kind := fun u => publishable_congr fun t =>
    sameParents_of_mapRows (f := normalMovie) (fun _ => rfl) rfl rfl
  rw [← hself s', ← hself s]
  refine publishable_congr fun t => SameParents.of_get fun ref href => ?_
  rcases parent_eq t ref href with hparent | hparent <;> rw [hparent]
  · exact h.movie
  · exact h.names

theorem get_normalized (h : Agrees s s') :
    ∀ t ∈ settledTables, (normalized options s').get t = (normalized options s).get t := by
  have hrebuilt : ∀ kind, rebuiltRows kind options (s'.rowsOf .movie) =
      rebuiltRows kind options (s.rowsOf .movie) := fun kind => by
    rw [rebuiltRows, h.membershipRows_eq, ← rebuiltRows]
  intro t ht
  simp only [settledTables, List.mem_cons, List.not_mem_nil, or_false] at ht
  rcases ht with rfl | rfl | rfl | rfl | rfl | rfl
  · exact h.movie
  · exact h.ratings
  · exact congrArg some (hrebuilt .country)
  · rfl
  · exact congrArg some (hrebuilt .language)
  · rfl

theorem normalizable (h : Agrees s s') (hs : Normalizable options s) (hs' : s'.IsMigrated) :
    Normalizable options s' where
  hasAmount := hs'.hasAmount
  movie := hs'.tables .movie
  ratings := hs'.tables .ratings
  staged kind := by
    cases kind with
    | country => exact hs'.tables .stagedCountry
    | language => exact hs'.tables .stagedLanguage
  published kind := by
    cases kind with
    | country => exact hs'.tables .movieCountry
    | language => exact hs'.tables .movieLanguage
  identified := by
    have hid : ∀ m, (normalMovie m).id = m.id := fun _ => rfl
    exact (identified_map hid).1 (h.rowsOf_movie ▸ (identified_map hid).2 hs.identified)
  stageable kind := by
    rw [h.membershipRows_eq]
    exact (stageable_congr s s').2 (hs.stageable kind)
  publishable kind := by
    rw [h.membershipRows_eq, h.publishable_iff]
    exact hs.publishable kind
  fillableMovies := by
    rw [meetsAll_movieGaps]
    intro n hn _
    obtain ⟨m, hm, rfl⟩ := List.mem_map.1 hn
    exact hs'.consistent.conditions .movie m.row (List.mem_map_of_mem hm)
  fillableRatings := by
    refine Gap.meetsAll_of_conditions conditions_ratingGaps fun n hn => ?_
    exact hs'.consistent.conditions .ratings n.row (List.mem_map_of_mem hn)

end Agrees

section reseeded

variable {t : Table} {conflict : Conflict t.Row} {rows : List t.Row}

/-- Rows that were written, changed and written again have the changed forms that they had. -/
theorem map_get_of_absorbs (h₁ : Absorbs t conflict rows s s₁) (h₃ : Absorbs t conflict rows s₂ s₃)
    {f : t.Row → t.Row} (hget : s₂.get t = (s₁.get t).map (mapRows f))
    (hkey : ∀ x r, sameRow t x (f r) = sameRow t x r)
    (hf : ∀ r, absorb conflict rows r = r → f (absorb conflict rows (f r)) = f r) :
    (s₃.get t).map (mapRows f) = s₂.get t := by
  have hrows : s₂.rowsOf t = (s₁.rowsOf t).map f := rowsOf_mapRows hget
  have hkept := h₃.kept fun row hrow => by
    obtain ⟨r, hr, hsame⟩ := h₁.there row hrow
    exact ⟨f r, hrows ▸ List.mem_map_of_mem hr, (hkey row r).trans hsame⟩
  replace hkept : s₃.get t = (s₂.get t).map (mapRows (absorb conflict rows)) := hkept
  rw [hkept, hget, map_mapRows, map_mapRows]
  cases hold : s₁.get t with
  | none => rfl
  | some old =>
    refine congrArg some (List.map_congr_left fun n hn => ?_)
    have hsettled := h₁.settled n.row (rowsOf_of_eq_some hold ▸ List.mem_map_of_mem hn)
    exact congrArg (fun row => { n with row := row }) (hf n.row hsettled)

theorem get_of_absorbs (h₁ : Absorbs t conflict rows s s₁) (h₃ : Absorbs t conflict rows s₂ s₃)
    (hget : s₂.get t = s₁.get t) : s₃.get t = s₂.get t := by
  have hid : ∀ old : Option (List (Numbered t.Row)), old.map (mapRows fun r => r) = old := by
    rintro (_ | old)
    · rfl
    · exact congrArg some (List.map_id old)
  have hmap := map_get_of_absorbs h₁ h₃ (f := fun r => r) (hget.trans (hid _).symm)
    (fun _ _ => rfl) fun r hr => hr
  rwa [hid] at hmap

/-- A movie that takes back its texts has the normal form that it had. -/
theorem normalMovie_absorb {movies : List MovieRow} {m : MovieRow}
    (hm : absorb (t := .movie) RowKind.movies.conflict movies m = m) :
    normalMovie (absorb (t := .movie) RowKind.movies.conflict movies (normalMovie m)) =
      normalMovie m := by
  have hlast : last? .movie movies (normalMovie m) = last? .movie movies m :=
    congrArg List.getLast? (List.filter_congr fun _ _ => rfl)
  unfold absorb at hm ⊢
  rw [hlast]
  cases hfound : last? .movie movies m with
  | none => exact normalMovie_normalMovie m
  | some row =>
    rw [hfound] at hm
    conv_rhs => rw [← hm]
    rfl

theorem filledRating_absorb {ratings : List RatingRow} {r : RatingRow}
    (hr : absorb (t := .ratings) RowKind.ratings.conflict ratings r = r) :
    filledRating (absorb (t := .ratings) RowKind.ratings.conflict ratings (filledRating r)) =
      filledRating r := by
  have hlast : last? .ratings ratings (filledRating r) = last? .ratings ratings r :=
    congrArg List.getLast? (List.filter_congr fun _ _ => rfl)
  unfold absorb at hr ⊢
  rw [hlast]
  cases hfound : last? .ratings ratings r with
  | none => exact filledRating_filledRating r
  | some row =>
    rw [hfound] at hr
    conv_rhs => rw [← hr]
    rfl

/-- The tables that neither a second seeding nor a normalization changes. -/
def keptTables : List Table :=
  [.names, .genre, .directorMapping, .roleMapping, .schemaMigrations]

/-- A second seeding undoes what the normalization did to the records of the dataset, and nothing
else. -/
theorem agrees_of_seeds {d : Dataset} {row : RunRow} (h₁ : Seeds d s s₁)
    (h₃ : Seeds d (withRun row (normalized options s₁)) s₃) :
    Agrees s₁ s₃ ∧ ∀ t ∈ keptTables, s₃.get t = (withRun row (normalized options s₁)).get t := by
  have hfirst := h₁.absorbed
  have hsecond := h₃.absorbed
  simp only [batches, parents, children, List.cons_append, List.nil_append, List.forall_mem_cons]
    at hfirst hsecond
  obtain ⟨hmovies, hnames, hgenres, hdirectings, hcastings, hratings, -⟩ := hfirst
  obtain ⟨hmovies', hnames', hgenres', hdirectings', hcastings', hratings', -⟩ := hsecond
  have hnamesKept := get_of_absorbs hnames hnames' rfl
  refine ⟨⟨?_, ?_, hnamesKept⟩, ?_⟩
  · exact map_get_of_absorbs hmovies hmovies' (f := normalMovie) rfl (fun _ _ => rfl)
      fun m => normalMovie_absorb
  · exact map_get_of_absorbs hratings hratings' (f := filledRating) rfl (fun _ _ => rfl)
      fun r => filledRating_absorb
  · simp only [keptTables, List.forall_mem_cons, List.not_mem_nil, false_implies, implies_true,
      and_true]
    exact ⟨hnamesKept, get_of_absorbs hgenres hgenres' rfl,
      get_of_absorbs hdirectings hdirectings' rfl, get_of_absorbs hcastings hcastings' rfl,
      h₃.others _ (by decide)⟩

end reseeded

theorem runNumber_congr (hruns : s'.normalizationRuns = s.normalizationRuns)
    (hsequences : s'.sequences = s.sequences) : runNumber s' = runNumber s := by
  rw [runNumber, runNumber, lastGiven, lastGiven, hsequences, Store.rowsOf, Store.rowsOf]
  exact congrArg (fun runs => nextRun _ ((runs.getD []).map (·.row))) hruns

/-- The tables that tell of the runs: their records, and the last number that was given to one. -/
def lineage : List Table :=
  [.normalizationRuns, .sequences]

theorem get_withRun (row : RunRow) (s : Store) :
    ∀ t ∉ lineage, (withRun row s).get t = s.get t := by
  intro t ht
  cases t <;> first | rfl | exact absurd (by decide) ht

/-- A run leaves all identifiers. -/
theorem identifiers_withRun_normalized (row : RunRow) (s : Store) (t : Table) :
    (withRun row (normalized options s)).identifiers t = s.identifiers t := by
  cases t with
  | movie =>
    change ((normalized options s).rowsOf .movie).filterMap (·.id) = _
    rw [rowsOf_movie_normalized, List.filterMap_map]
    rfl
  | _ => rfl

/-- What the records of a dataset refer to is still there after they were seeded and normalized. -/
theorem isResolved_withRun_normalized {d : Dataset} (hd : d.Keeps) {w w₁ : World} (hw : w.Ready)
    (hs : w.data.IsMigrated) {tally : Fields} (hseed : (seed d).on w = (.ok tally, w₁))
    (row : RunRow) : d.IsResolved (withRun row (normalized options w₁.data)) := by
  refine (isResolved_of_on_seed hd hw hs hseed).mono (fun id hmem => Or.inr ?_)
    fun id hmem => Or.inr ?_ <;>
  · rw [identifiers_withRun_normalized]
    exact hmem

/-- Where a second seeding undid what the normalization did, a second normalization does it
again. -/
theorem get_normalized_of_agrees {row : RunRow} (h : Agrees s s')
    (hkept : ∀ t ∈ keptTables, s'.get t = (withRun row (normalized options s)).get t) :
    ∀ t ∉ lineage, (normalized options s').get t = (normalized options s).get t := by
  intro t ht
  by_cases hsettled : t ∈ settledTables
  · exact h.get_normalized t hsettled
  · have hmem : t ∈ keptTables := by
      cases t <;> first | decide | exact absurd (by decide) ht | exact absurd (by decide) hsettled
    have hsame : s'.get t = (normalized options s).get t :=
      (hkept t hmem).trans (get_withRun row _ t ht)
    rw [← hsame]
    cases t <;> first | rfl | exact absurd hmem (by decide)

/-- After an accepted dataset was seeded and normalized by a run that did not get the last of all
numbers, both can be done again, and leave every table as it was but for the lineage. -/
theorem unchanged_of_reseeding {value : Option Json} {source : String} {d : Dataset}
    (hparse : parse value source = .ok d) {w w₁ w₂ : World} (hs : w.data.IsMigrated)
    {tally : Fields} (hseed : (seed d).on w = (.ok tally, w₁)) {logger : Journal.Logger}
    {given : Fields} {r : Run} (hrun : (run logger given).on w₁ = (.ok r, w₂))
    (hid : r.runId < 9223372036854775807) (logger' : Journal.Logger)
    {clock : List (Option Calendar.Instant)} (hclock : (w₂.timed clock).Ticks) :
    ∃ w₃ r' w₄, (seed d).on (w₂.timed clock) = (.ok tally, w₃) ∧
      (run logger' given).on w₃ = (.ok r', w₄) ∧
      ∀ t ∉ lineage, w₄.data.get t = w₂.data.get t := by
  obtain ⟨hkeptMovies, hkeptRatings⟩ := keeps_of_parse hparse
  have hd : d.Keeps := ⟨hkeptMovies, hkeptRatings⟩
  -- The first seeding and the first run.
  obtain ⟨options, s, hresolve, hready₁, hperformed, -, hrecorded, hcontinues⟩ := of_on_run hrun
  obtain ⟨hnormalizable, -, rfl⟩ := performed_iff.1 hperformed
  obtain ⟨hruns, hnumber, hstorable, hdata₂⟩ := hrecorded
  have hready : w.Ready := ((whole_seed d).orderly.continues_of_on hseed).ready.1 hready₁
  have hseeds := seeds_of_on hd hready hs hseed
  obtain ⟨-, rfl, -⟩ := (computes_seed d).of_on hready hseed
  have hmigrated₂ := isMigrated_of_on_run hseeds.migrated hrun
  have hready₂ : (w₂.timed clock).Ready :=
    ⟨(hcontinues.ready.2 hready₁).obstacle, (hcontinues.ready.2 hready₁).refusal⟩
  -- The second seeding finds what its records refer to.
  have hresolved : d.IsResolved (w₂.timed clock).data := by
    rw [World.data_timed, hdata₂]
    exact isResolved_withRun_normalized hd hready hs hseed _
  obtain ⟨tally', w₃, hreseed⟩ := (exists_on_seed_iff hd hready₂ hmigrated₂).2 hresolved
  obtain ⟨-, rfl, -⟩ := (computes_seed d).of_on hready₂ hreseed
  have hreseeds := seeds_of_on hd hready₂ hmigrated₂ hreseed
  have hcontinues₃ := (whole_seed d).orderly.continues_of_on hreseed
  rw [World.data_timed, hdata₂] at hreseeds
  obtain ⟨hagrees, hkept⟩ := agrees_of_seeds hseeds hreseeds
  have hlineage : ∀ t ∈ lineage, w₃.data.get t = w₂.data.get t := by
    rw [hdata₂]
    simp only [lineage, List.forall_mem_cons, List.not_mem_nil, false_implies, implies_true,
      and_true]
    exact ⟨hreseeds.others _ (by decide), hreseeds.others _ (by decide)⟩
  -- The second run gets the next number.
  have hagain := hagrees.normalizable hnormalizable hreseeds.migrated
  have hnext : runNumber (normalized options w₃.data) = r.runId + 1 := by
    have hsame : runNumber (normalized options w₃.data) = runNumber w₂.data :=
      runNumber_congr (hlineage .normalizationRuns (by decide)) (hlineage .sequences (by decide))
    rw [hsame, hdata₂]
    exact runNumber_withRun hruns hnumber
  have hfree : Cell.isStorable (runNumber (normalized options w₃.data)) = true := by
    rw [hnext]
    simp only [Cell.isStorable, Bool.and_eq_true, decide_eq_true_eq] at hstorable ⊢
    omega
  obtain ⟨r', w₄, hrerun, -, -⟩ := exists_on_run logger' hresolve
    (hcontinues₃.ready.2 hready₂) (hcontinues₃.ticks hclock) (performed_iff.2 ⟨hagain, rfl, rfl⟩)
    (hreseeds.migrated.tables .normalizationRuns) hfree
  obtain ⟨options', s', hresolve', -, hperformed', -, ⟨-, -, -, hdata₄⟩, -⟩ := of_on_run hrerun
  obtain rfl : options = options' := Except.ok.inj (hresolve.symm.trans hresolve')
  obtain ⟨-, -, rfl⟩ := performed_iff.1 hperformed'
  refine ⟨w₃, r', w₄, hreseed, hrerun, fun t ht => ?_⟩
  rw [hdata₄, get_withRun _ _ t ht, hdata₂, get_withRun _ _ t ht]
  exact get_normalized_of_agrees hagrees hkept t ht

/-- A film with an amount, a country and no language, and a rating without numbers. -/
def gaps : Json :=
  .object
    [("generatedAt", .string "2024-01-01T00:00:00.000Z"),
     ("movies", .array [.object
       [("id", .string "tt1"), ("title", .string "One"), ("country", .string " Norway "),
        ("worldwideGrossIncome", .string "$ 1,200.5"), ("languages", .string " ")]]),
     ("ratings", .array [.object [("movieId", .string "tt1")]])]

/-- The dataset of the film. -/
def gapped : Dataset where
  generatedAt := "2024-01-01T00:00:00.000Z"
  movies := [⟨"tt1", "One", none, none, none, some " Norway ", some "$ 1,200.5", some " ", none⟩]
  names := []
  genres := []
  directings := []
  castings := []
  ratings := [⟨"tt1", none, none, none⟩]

theorem parse_gaps : parse (some gaps) "films.json" = .ok gapped := by
  have hsome : (parse (some gaps) "films.json").toOption = some gapped := by decide +kernel
  rcases hparsed : parse (some gaps) "films.json" with f | d <;> rw [hparsed] at hsome
  · cases hsome
  · rw [Option.some.inj hsome]

theorem unchanged_of_gaps : ∃ w w₁ w₂ w₃ w₄ tally r r', w.data.IsMigrated ∧
    (seed gapped).on w = (.ok tally, w₁) ∧ (run .quiet []).on w₁ = (.ok r, w₂) ∧
    r.runId < 9223372036854775807 ∧ (w₂.timed [some ⟨0⟩]).Ticks ∧
    (seed gapped).on (w₂.timed [some ⟨0⟩]) = (.ok tally, w₃) ∧
    (run .quiet []).on w₃ = (.ok r', w₄) ∧ ∀ t ∉ lineage, w₄.data.get t = w₂.data.get t := by
  have hreturns : Migration.run.returns (World.inMemory .empty [some ⟨0⟩])
      (fun _ w => (seed gapped).returns w fun _ w₁ => (run .quiet []).returns w₁ fun r _ =>
        decide (r.runId < 9223372036854775807)) = true := by
    decide +kernel
  obtain ⟨applied, w, hmigrate, hreturns⟩ := exists_on_of_returns hreturns
  obtain ⟨tally, w₁, hseed, hreturns⟩ := exists_on_of_returns hreturns
  obtain ⟨r, w₂, hrun, hid⟩ := exists_on_of_returns hreturns
  replace hid : r.runId < 9223372036854775807 := of_decide_eq_true hid
  obtain ⟨-, hfresh⟩ := Migration.isFresh_of_on_run ⟨rfl, rfl⟩ rfl hmigrate
  have hclock : (w₂.timed [some ⟨0⟩]).Ticks := by
    refine ⟨List.cons_ne_nil _ _, fun reading hreading => ?_⟩
    rw [List.mem_singleton.1 hreading]
    rfl
  obtain ⟨w₃, r', w₄, hreseed, hrerun, hsame⟩ :=
    unchanged_of_reseeding parse_gaps hfresh.migrated hseed hrun hid .quiet hclock
  exact ⟨w, w₁, w₂, w₃, w₄, tally, r, r', hfresh.migrated, hseed, hrun, hid, hclock, hreseed,
    hrerun, hsame⟩

/-- A migrated store in which the last run had the last number but one. -/
def lastButOne : Store :=
  blank.put .normalizationRuns
    (some [⟨1, RunRecord.row ⟨.completed, "", "", .start, .standard, none⟩ 9223372036854775806⟩])

theorem isMigrated_lastButOne : lastButOne.IsMigrated where
  tables t := by cases t <;> rfl
  hasAmount := rfl
  consistent := by
    refine isMigrated_blank.consistent.put ?_ ?_ ?_ ?_
    · exact fun _ _ => List.pairwise_singleton _ _
    · exact List.forall_mem_singleton.2 (by decide +kernel)
    · exact List.forall_mem_singleton.2 rfl
    · exact List.forall_mem_nil _

/-- Where the first run gets the last of all numbers, the second one cannot be recorded. -/
theorem not_unchanged_of_lastButOne : parse (some gaps) "films.json" = .ok gapped ∧
    lastButOne.IsMigrated ∧ ∃ tally tally' r f w₁ w₂ w₃ w₄,
      (seed gapped).on (World.inMemory lastButOne [some ⟨0⟩]) = (.ok tally, w₁) ∧
      (run .quiet []).on w₁ = (.ok r, w₂) ∧ (seed gapped).on w₂ = (.ok tally', w₃) ∧
      (run .quiet []).on w₃ = (.error (.fault f), w₄) ∧ f.code = .lineageFailed := by
  have hreturns : (seed gapped).returns (World.inMemory lastButOne [some ⟨0⟩])
      (fun _ w₁ => (run .quiet []).returns w₁ fun _ w₂ => (seed gapped).returns w₂ fun _ w₃ =>
        (run .quiet []).faults w₃ fun f _ => decide (f.code = .lineageFailed)) = true := by
    decide +kernel
  obtain ⟨tally, w₁, hseed, hreturns⟩ := exists_on_of_returns hreturns
  obtain ⟨r, w₂, hrun, hreturns⟩ := exists_on_of_returns hreturns
  obtain ⟨tally', w₃, hreseed, hfaults⟩ := exists_on_of_returns hreturns
  obtain ⟨f, w₄, hrerun, hcode⟩ := exists_on_of_faults hfaults
  exact ⟨parse_gaps, isMigrated_lastButOne, tally, tally', r, f, w₁, w₂, w₃, w₄, hseed, hrun,
    hreseed, hrerun, of_decide_eq_true hcode⟩

end Normalize
end FilmReport
