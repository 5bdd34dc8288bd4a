import FilmReport.Proofs.Dataset.Seeded
import FilmReport.Proofs.Normalize.Amount
import FilmReport.Proofs.Normalize.Outcome
import FilmReport.Proofs.Query.Agreement
import FilmReport.Proofs.Query.Printed

/-!
The queries of the catalog after a dataset was written and normalized. Amounts have at most thirteen
digits before the point then, and the gaps in ratings are filled with zeros. All queries have
results, but for one: it divides votes by ratings, and a rating near zero leads out of the range of
numbers. The quotient that does stands first among its rows. What a query reports are the values of
the rows that its statement answers, or, where a number without bound is among them, a fault.
-/

set_option autoImplicit false
set_option relaxedAutoImplicit false

namespace FilmReport

namespace Normalize

open Store Act Binary64

namespace Amount

/-- Amounts of any cents but none are a hundredth at least, and so on a grid of their own. -/
theorem within_units {cents : Nat} (h : cents ≤ 10 ^ 15) : (units cents).Within (-60) 64 := by
  have hq : mkRat cents 100 = (cents : ℚ) / 100 := Rat.mkRat_eq_div _ _
  rw [units, hq]
  rcases Nat.eq_zero_or_pos cents with rfl | hpos
  · refine ⟨0, ?_, Or.inr (IsMultiple.zero _), by simp⟩
    rw [Nat.cast_zero, zero_div, Binary64.round, if_pos rfl]
  · have hone : (1 : ℚ) ≤ cents := by exact_mod_cast hpos
    have hsize : (cents : ℚ) ≤ 10 ^ 15 := by exact_mod_cast h
    have hcents : (0 : ℚ) < cents / 100 := by positivity
    have hle : (cents : ℚ) / 100 ≤ 2 ^ (64 : ℤ) := by
      norm_num
      linarith
    have hrounds := RoundsTo.of_pos hcents (hle.trans (two_zpow_le (by decide)))
    refine ⟨_, hrounds.round, Or.inr (isMultiple_magnitude_of_le hcents ?_), ?_⟩
    · norm_num
      linarith
    · exact hrounds.abs_le (by decide) (by rwa [abs_of_pos hcents])

theorem isTerm_settled (raw : Option String) : (read raw).settled.IsTerm (-60) := by
  have hmissing : (Cell.real (.ofInt missingNumber)).IsTerm (-60) :=
    within_ofInt (by decide) (by decide) (by decide) (by simp [missingNumber])
  cases hread : read raw with
  | parsed cents => exact within_units (cents_le_of_read hread)
  | absent => exact hmissing
  | invalid raw flaw => exact hmissing

end Amount

theorem isWhole_filledNumber {c : Cell} (h : c.IsWhole) :
    (filledNumber (.int missingNumber) c).IsWhole := by
  rcases h with rfl | ⟨n, rfl, hn⟩
  · exact Or.inr ⟨_, rfl, by decide⟩
  · exact Or.inr ⟨n, rfl, hn⟩

theorem isCount_filledNumber {c : Cell} (h : c.IsCount) :
    (filledNumber (.int missingNumber) c).IsCount := by
  rcases h with rfl | ⟨n, rfl, hn⟩
  · exact Or.inr ⟨_, rfl, by decide⟩
  · exact Or.inr ⟨n, rfl, hn⟩

theorem isScore_filledNumber {c : Cell} (h : c.IsScore) :
    (filledNumber (.real (.ofInt missingNumber)) c).IsScore := by
  rcases h with rfl | ⟨q, rfl, hq⟩
  · exact Or.inr ⟨0, rfl, by norm_num⟩
  · exact Or.inr ⟨q, rfl, hq⟩

theorem isBounded_filledRating {r : RatingRow} (h : r.IsBounded) : (filledRating r).IsBounded :=
  ⟨isScore_filledNumber h.average, isCount_filledNumber h.votes, isWhole_filledNumber h.median⟩

section Outcome

variable {options : SplitOptions} {r : Run} {s s' : Store}

theorem Outcome.isTerm_grossAmount (h : Outcome options s r s') :
    ∀ m ∈ s'.rowsOf .movie, m.grossAmount.IsTerm (-60) := by
  rw [h.rowsOf_movie, List.forall_mem_map]
  exact fun m _ => Amount.isTerm_settled m.grossIncome

theorem Outcome.isMeasured (h : Outcome options s r s') (hs : s.RowsMeet Table.IsBoundedRow) :
    s'.IsMeasured := by
  have hratings : s'.rowsOf .ratings = (s.rowsOf .ratings).map filledRating :=
    rowsOf_mapRows (t := .ratings) h.ratings
  refine ⟨?_, h.isTerm_grossAmount, ?_⟩
  · rw [h.rowsOf_movie, List.forall_mem_map]
    intro m hm
    have hbounded : m.IsBounded := hs .movie m hm
    exact ⟨hbounded.year, hbounded.duration⟩
  · rw [hratings, List.forall_mem_map]
    exact fun r hr => isBounded_filledRating (hs .ratings r hr)

/-- A run leaves no table of the queries absent. -/
theorem Outcome.has_of_queried (h : Outcome options s r s')
    (hs : ∀ t ∈ queried, s.has t = true) : ∀ t ∈ queried, s'.has t = true := by
  have hpublished : ∀ kind, (s'.publishedOf kind).isSome = true := by
    intro kind
    obtain ⟨rows, hrows, -⟩ := h.published kind
    rw [hrows]
    rfl
  intro t ht
  have hbefore := hs t ht
  rw [has] at hbefore ⊢
  cases t with
  | movie => exact (congrArg Option.isSome h.movie).trans (Option.isSome_map.trans hbefore)
  | ratings => exact (congrArg Option.isSome h.ratings).trans (Option.isSome_map.trans hbefore)
  | movieCountry => exact hpublished .country
  | movieLanguage => exact hpublished .language
  | names | genre | directorMapping | roleMapping => rwa [h.others _ (by decide)]
  | stagedCountry | stagedLanguage | normalizationRuns | schemaMigrations | sequences =>
    exact absurd ht (by decide)

end Outcome
end Normalize
end FilmReport

namespace FilmReport.Query

open Store

section Ratio

open Binary64

/-- Whether the votes for a movie, divided by its rating, leave the range of numbers. -/
def ratioOverflows (s : Store) : Bool :=
  (ratedMovies s).any fun (_, r) =>
    isPositive r.avgRating && quotient r.totalVotes r.avgRating = .real (.infinite false)

/-- Rows sorted downward by a column begin with the greatest cell in it. -/
theorem exists_head_sortBy {j : ℕ} (order : List By) {rows : List (List Cell)}
    (hnan : ∀ row ∈ rows, ∀ c ∈ row, c ≠ .real .nan) {row : List Cell} (hrow : row ∈ rows) :
    ∃ first rest, sortBy (.down j :: order) rows = first :: rest ∧
      (cellAt row j).rank ≤ (cellAt first j).rank := by
  have hkeys : ∀ row ∈ rows, ∀ k ∈ (By.down j :: order).map (By.key row), k.cell ≠ .real .nan := by
    intro row hrow k hk
    obtain ⟨b, -, rfl⟩ := List.mem_map.1 hk
    rw [cell_key]
    rcases cellAt_mem_or_null row b.column with h | h
    · exact hnan row hrow _ h
    · rw [h]
      simp
  have hordered := pairwise_orderBy hkeys
  have hmem : row ∈ sortBy (.down j :: order) rows := mem_orderBy.2 hrow
  rw [← sortBy] at hordered
  cases hsorted : sortBy (.down j :: order) rows with
  | nil =>
    rw [hsorted] at hmem
    cases hmem
  | cons first rest =>
    refine ⟨first, rest, rfl, ?_⟩
    rw [hsorted] at hmem hordered
    rcases List.mem_cons.1 hmem with rfl | hlater
    · exact le_rfl
    · have hle := (List.pairwise_cons.1 hordered).1 row hlater
      refine not_lt.1 fun hlt => hle.not_gt ?_
      rw [rankBy, rankBy, List.map_cons, List.map_cons, List.map_cons, List.map_cons,
        List.cons_lt_cons_iff]
      exact Or.inl (Sum.Lex.inr_lt_inr_iff.2 (OrderDual.toDual_lt_toDual.2 hlt))

/-- Sorted rows cannot be printed if the greatest cell of the first column of the order cannot. -/
theorem not_printable_take {j n : ℕ} {order : List By} {rows : List (List Cell)} (hn : 0 < n)
    (hnan : ∀ row ∈ rows, ∀ c ∈ row, c ≠ .real .nan) {row : List Cell} (hrow : row ∈ rows)
    (hgreatest : ∀ other ∈ rows, (cellAt other j).IsPrintable →
      (cellAt other j).rank < (cellAt row j).rank) :
    ¬ Printable ((sortBy (.down j :: order) rows).take n) := by
  intro hprintable
  obtain ⟨first, rest, hsorted, hle⟩ := exists_head_sortBy order hnan hrow
  obtain ⟨k, rfl⟩ := Nat.exists_eq_succ_of_ne_zero hn.ne'
  have hmem : first ∈ rows := by
    rw [← mem_orderBy, ← sortBy, hsorted]
    exact List.mem_cons_self
  rw [hsorted, List.take_succ_cons] at hprintable
  have hcell := isPrintable_cellAt (hprintable first List.mem_cons_self) j
  exact hle.not_gt (hgreatest first hmem hcell)

/-- The quotient of votes by a rating above zero. -/
theorem quotient_votes {s : Store} (hs : s.IsMeasured) {r : RatingRow}
    (hr : r ∈ s.rowsOf .ratings) (hpositive : isPositive r.avgRating = true) :
    quotient r.totalVotes r.avgRating = .real (.infinite false) ∨
      quotient r.totalVotes r.avgRating = .null ∨
      ∃ q, quotient r.totalVotes r.avgRating = .real (finite q) ∧ IsMultiple (-1074) q := by
  rcases quotient_cases r.totalVotes r.avgRating with h | ⟨hnull, hzero, h⟩
  · exact Or.inr (Or.inl h)
  obtain ⟨n, hn, hvotes, -⟩ := (hs.rating r hr).votes.resolve_left hnull
  obtain ⟨q, hq, hnonneg, -⟩ := (hs.rating r hr).average.resolve_left fun hmissing => by
    rw [hmissing] at hpositive
    cases hpositive
  have hpos : 0 < q := lt_of_le_of_ne hnonneg fun hsame => hzero (by rw [hq, ← hsame]; rfl)
  have hcount : (0 : ℚ) ≤ n := by exact_mod_cast hvotes
  rw [h, hn, hq]
  change ofNumber ((ofInt n).div (finite q)) = _ ∨ ofNumber ((ofInt n).div (finite q)) = _ ∨
    ∃ v, ofNumber ((ofInt n).div (finite q)) = _ ∧ _
  rw [ofInt]
  rcases round_nonneg_cases hcount with ⟨v, hv, hvnonneg⟩ | hinfinite
  · rw [hv, div, if_neg hpos.ne']
    rcases round_nonneg_cases (div_nonneg hvnonneg hnonneg) with ⟨z, hz, -⟩ | hinfinite
    · exact Or.inr (Or.inr ⟨z, by rw [hz]; rfl, isMultiple_of_round hz⟩)
    · exact Or.inl (by rw [hinfinite]; rfl)
  · rw [hinfinite, div]
    simp [hpos.not_gt, ofNumber]

theorem rounded_cases (places : ℕ) (c : Cell) :
    rounded places c = .null ∨ ∃ x, rounded places c = .real x := by
  unfold rounded
  split
  · exact Or.inl rfl
  · cases roundPlaces places _ with
    | nan => exact Or.inl rfl
    | finite q => exact Or.inr ⟨_, rfl⟩
    | infinite negative => exact Or.inr ⟨_, rfl⟩

theorem rank_lt_of_isPrintable {places : ℕ} {c : Cell} (h : (rounded places c).IsPrintable) :
    (rounded places c).rank < (Cell.real (.infinite false)).rank := by
  rcases rounded_cases places c with hnull | ⟨x, hx⟩
  · rw [hnull]
    decide
  · rw [hx] at h ⊢
    cases x with
    | finite q => exact Prod.Lex.toLex_lt_toLex.2 (Or.inl (Nat.lt_succ_self 2))
    | infinite _ => cases h
    | nan => cases h

namespace Movies

variable {p : Params} {s : Store}

theorem votesPerRating_prints (hs : s.IsMeasured) (h : ratioOverflows s = false) :
    votesPerRating.statement.Prints p s := by
  refine prints_select (((Printable.map fun x hx => ?_).sortBy _).take 10)
  obtain ⟨hmem, hpositive⟩ := List.mem_filter.1 hx
  have hrating := snd_mem_of_join hmem
  have hinrange : quotient x.2.totalVotes x.2.avgRating ≠ .real (.infinite false) := by
    intro hquotient
    have hnone := List.any_eq_false.1 h x hmem
    simp_all
  have hshown : (rounded 2 (quotient x.2.totalVotes x.2.avgRating)).IsPrintable := by
    have hcases := (quotient_votes hs hrating hpositive).resolve_left hinrange
    rcases hcases with hnull | ⟨q, hq, hmultiple⟩
    · rw [hnull]
      trivial
    · rw [hq]
      exact isPrintable_rounded_of_eq (by decide) rfl hmultiple
  simp [isPrintable_votes hs hrating, isPrintable_average hs hrating, hshown]

/-- A quotient beyond the range comes first, and is refused. -/
theorem votesPerRating_fails (hs : s.IsMeasured) (h : ratioOverflows s = true) (result : Result) :
    votesPerRating.answerOn p s ≠ .ok result := by
  obtain ⟨x, hx, hoverflow⟩ := List.any_eq_true.1 h
  obtain ⟨hpositive, hquotient⟩ : isPositive x.2.avgRating = true ∧
      quotient x.2.totalVotes x.2.avgRating = .real (.infinite false) := by
    simpa using hoverflow
  intro hanswer
  have hregular := regular_of_mem_catalog votesPerRating (by simp [catalog])
  have hprintable := hregular.printable_of_answerOn rfl ?_ hanswer
  · refine not_printable_take (by decide) ?_ (List.mem_map_of_mem
      (List.mem_filter.2 ⟨hx, hpositive⟩)) ?_ hprintable
    · rw [List.forall_mem_map]
      intro y hy
      have hrating := snd_mem_of_join (List.mem_of_mem_filter hy)
      simp [(isPrintable_votes hs hrating).ne_nan, (isPrintable_average hs hrating).ne_nan,
        rounded_ne_nan]
    · rw [List.forall_mem_map]
      intro y hy hcell
      have hlimit := rank_lt_of_isPrintable hcell
      change _ < (rounded 2 (quotient x.2.totalVotes x.2.avgRating)).rank
      rw [hquotient]
      exact hlimit
  · intro row hrow
    obtain ⟨y, -, rfl⟩ := List.mem_map.1 (mem_orderBy.1 (List.mem_of_mem_take hrow))
    exact le_rfl

end Movies

end Ratio

section Results

open Act

variable {p : Params} {s : Store}

theorem prints_of_mem_catalog (hs : s.IsMeasured) (hgenres : (s.rowsOf .genre).length < 2 ^ 63) :
    ∀ d ∈ catalog, (d.id = "Q38" → ratioOverflows s = false) → d.statement.Prints p s := by
  simp only [catalog, List.forall_mem_cons]
  exact ⟨fun _ => Movies.releasedInYear_prints hs,
    fun _ => Movies.countByYear_prints hs,
    fun _ => Movies.topRated_prints hs,
    fun _ => Genres.all_prints,
    fun _ => Genres.moviesOfSeveral_prints,
    fun _ => People.moviesOfActor_prints hs,
    fun _ => People.moviesByDirector_prints,
    fun _ => Movies.inEnglishAndMore_prints,
    fun _ => Companies.moviesOf_prints hs,
    fun _ => People.bestDirectors_prints hs,
    fun _ => People.busiestActors_prints,
    fun _ => Movies.highestGrossingByYear_prints hs,
    fun _ => Genres.bestRated_prints hs,
    fun _ => Regions.commonestLanguage_prints,
    fun _ => Movies.monthsOfYear_prints,
    fun _ => Movies.perfectMedian_prints hs,
    fun _ => Genres.shares_prints hgenres,
    fun _ => Companies.highestGrossing_prints hs,
    fun _ => Regions.ratingByLanguage_prints hs,
    fun _ => Regions.busiestCountries_prints,
    fun _ => Movies.releasedBetween_prints,
    fun _ => People.busiestDirectorYear_prints hs,
    fun _ => People.commonestPair_prints,
    fun _ => Genres.aboveAverage_prints hs,
    fun _ => Genres.highestGrossing_prints hs,
    fun _ => Genres.averageDuration_prints hs,
    fun _ => People.actorsByDirectors_prints,
    fun _ => People.commonestDirectorGenres_prints,
    fun _ => Genres.topRatedMovies_prints hs,
    fun _ => Regions.grossShares_prints hs.amount,
    fun _ => Movies.busiestMonth_prints,
    fun _ => People.bestActors_prints hs,
    fun _ => Genres.longestMovies_prints hs,
    fun _ => Companies.averageGross_prints hs,
    fun _ => People.aboveDirectorAverage_prints hs,
    fun _ => People.actorByGenres_prints,
    fun _ => Regions.commonestGenres_prints,
    fun hratio => Movies.votesPerRating_prints hs (hratio rfl),
    fun _ => People.directorByActors_prints,
    fun _ => Companies.averageDuration_prints hs,
    fun _ => Regions.highestGrossingByLanguage_prints hs,
    fun _ => People.actorsByCountries_prints,
    fun _ => Movies.grossByYear_prints hs,
    fun _ => People.highestGrossingActor_prints hs,
    fun _ => Movies.countByRating_prints hs,
    fun _ => People.highestGrossingDirectors_prints hs,
    fun _ => Regions.ratingByCountry_prints hs,
    fun _ => Movies.bestYear_prints hs,
    fun _ => People.commonestCoActors_prints,
    fun _ => Movies.ratingPerMinute_prints hs,
    List.forall_mem_nil _⟩

/-- The fault of rows that are not printed. -/
theorem code_of_checkRows {id : String} {columns : List String} {f : Fault} :
    ∀ {n : ℕ} {rows : List (List Datum)},
      checkRows id columns n rows = .error f → f.code = .queryRowInvalid
  | n, data :: rest, h => by
    rw [checkRows] at h
    cases hrow : (checkRow (columns.zip data)).toExcept with
    | error issues =>
      rw [hrow] at h
      exact Except.error.inj h ▸ rfl
    | ok row =>
      rw [hrow] at h
      cases hrest : checkRows id columns (n + 1) rest with
      | error f' =>
        rw [hrest] at h
        exact Except.error.inj h ▸ code_of_checkRows hrest
      | ok out =>
        rw [hrest] at h
        cases h

theorem Definition.Regular.code_of_answerOn {d : Definition} (hd : d.Regular)
    (hprepare : d.statement.prepare s = .ok ()) {f : Fault} (h : d.answerOn p s = .error f) :
    f.code = .queryRowInvalid := by
  rw [hd.answerOn_eq, hprepare] at h
  cases hcheck : checkRows d.id d.statement.columns 0 (d.statement.rows p s) with
  | error f' =>
    rw [hcheck] at h
    exact Except.error.inj h ▸ code_of_checkRows hcheck
  | ok out =>
    rw [hcheck] at h
    cases h

/-- Of the queries of the catalog the ratio of votes fails, and only where it has no number. -/
theorem answerOn_error_iff (hs : s.IsMeasured) (hgenres : (s.rowsOf .genre).length < 2 ^ 63)
    (htables : ∀ table ∈ queried, s.has table = true) (hamount : s.hasAmount = true)
    {d : Definition} (hd : d ∈ catalog) :
    (∃ f, d.answerOn p s = .error f) ↔ d.id = "Q38" ∧ ratioOverflows s = true := by
  constructor
  · rintro ⟨f, hf⟩
    by_contra hnot
    have hratio : d.id = "Q38" → ratioOverflows s = false := fun hid => by simpa [hid] using hnot
    obtain ⟨result, hresult⟩ := (regular_of_mem_catalog d hd).exists_answerOn htables hamount
      (prints_of_mem_catalog (p := p) hs hgenres d hd hratio)
    rw [hresult] at hf
    cases hf
  · rintro ⟨hid, hratio⟩
    have hsame : d = Movies.votesPerRating :=
      List.inj_on_of_nodup_map nodup_ids_catalog hd (by simp [catalog]) hid
    cases hanswer : d.answerOn p s with
    | error f => exact ⟨f, rfl⟩
    | ok result =>
      rw [hsame] at hanswer
      exact absurd hanswer (Movies.votesPerRating_fails hs hratio result)

/-- The outcomes of all queries on a store, of which the ratio of votes alone may have failed. -/
structure Answered (s : Store) (outcomes : List Runner.Outcome) : Prop where
  definitions : outcomes.map (·.definition) = catalog
  failed : ∀ o ∈ outcomes,
    o.failed = true ↔ o.definition.id = "Q38" ∧ ratioOverflows s = true
  code : ∀ o ∈ outcomes, ∀ f, o.result = .error f → f.code = .queryRowInvalid
  count : outcomes.countP Runner.Outcome.failed = if ratioOverflows s then 1 else 0

theorem failed_iff {o : Runner.Outcome} : o.failed = true ↔ ∃ f, o.result = .error f := by
  rw [Runner.Outcome.failed]
  cases o.result with
  | ok result => simp
  | error f => simp

theorem answered_catalog (hs : s.IsMeasured) (hgenres : (s.rowsOf .genre).length < 2 ^ 63)
    (htables : ∀ table ∈ queried, s.has table = true) (hamount : s.hasAmount = true) (p : Params) :
    Answered s (catalog.map fun d => ⟨d, d.answerOn p s⟩) := by
  have hfailed : ∀ d ∈ catalog, (⟨d, d.answerOn p s⟩ : Runner.Outcome).failed = true ↔
      d.id = "Q38" ∧ ratioOverflows s = true := fun d hd =>
    failed_iff.trans (answerOn_error_iff hs hgenres htables hamount hd)
  constructor
  · rw [List.map_map]
    exact List.map_id' _
  · exact List.forall_mem_map.2 hfailed
  · refine List.forall_mem_map.2 fun d hd f hf => ?_
    have hregular := regular_of_mem_catalog d hd
    exact hregular.code_of_answerOn (hregular.prepare_eq_ok htables hamount) hf
  · have hcount : ∀ d ∈ catalog, (⟨d, d.answerOn p s⟩ : Runner.Outcome).failed =
        (decide (d.id = "Q38") && ratioOverflows s) := fun d hd => by
      rw [Bool.eq_iff_iff, hfailed d hd, Bool.and_eq_true, decide_eq_true_eq]
    rw [List.countP_map, List.countP_congr fun d hd => by rw [Function.comp, hcount d hd]]
    cases ratioOverflows s <;> decide

/-- All queries after a dataset was accepted, written to an empty database and normalized. -/
theorem answered_of_on_run {value : Option Json} {source : String} {d : Dataset}
    (haccepted : Dataset.parse value source = .ok d) {w₀ w₁ w₂ w₃ : World}
    (hempty : w₀.data = .empty) {applied : Migration.Applied}
    (hmigrated : Migration.run.on w₀ = (.ok applied, w₁)) {counts : Fields}
    (hseeded : (Dataset.seed d).on w₁ = (.ok counts, w₂)) {journal : Journal.Logger}
    {given : Fields} {r : Normalize.Run}
    (hnormalized : (Normalize.run journal given).on w₂ = (.ok r, w₃))
    (hgenres : (w₃.data.rowsOf .genre).length < 2 ^ 63) {asked : Fields}
    (hasked : Params.resolve asked = .ok p) (logger : Journal.Logger) :
    ∃ outcomes r' w₄, ((Runner.make logger catalog).runAll asked).on w₃ =
      (.ok (.ok outcomes, r'), w₄) ∧ Answered w₃.data outcomes := by
  obtain ⟨hmovies, hratings⟩ := Dataset.keeps_of_parse haccepted
  have hbefore : w₁.data.RowsMeet Table.IsBoundedRow :=
    Migration.leads_run (hempty ▸ rowsMeet_empty) hmigrated
  have hstored : Dataset.IsSeeded w₂.data := Dataset.leads_seed hmovies hratings hbefore hseeded
  obtain ⟨options, s, -, hready, hperformed, hstatus, hrecorded, hcontinues⟩ :=
    Normalize.of_on_run hnormalized
  obtain ⟨hnormalizable, hx, rfl⟩ := Normalize.performed_iff.1 hperformed
  obtain ⟨hprogress, hwarnings⟩ := Prod.mk.inj hx
  have houtcome :=
    Normalize.outcome_of_normalizable hnormalizable hprogress hwarnings hstatus hrecorded
  obtain ⟨r', w₄, hall⟩ :=
    Runner.exists_on_runAll nodup_ids_catalog hasked (hcontinues.ready.2 hready).obstacle
  exact ⟨_, r', w₄, hall, answered_catalog (houtcome.isMeasured hstored.rows) hgenres
    (houtcome.has_of_queried hstored.tables) (houtcome.hasAmount.trans hstored.hasAmount) p⟩

/-- A film with one vote and the least rating above zero. -/
def faintFilm : Dataset where
  generatedAt := "2026-01-15T10:00:00.000Z"
  movies := [⟨"a", "A", none, none, none, none, none, none, none⟩]
  names := []
  genres := []
  directings := []
  castings := []
  ratings := [⟨"a", some (mkRat 1 (2 ^ 1074)), some 1, some 1⟩]

/-- A dataset brought into a store. -/
def bring (d : Dataset) : Act Normalize.Run := do
  let _ ← Migration.run
  let _ ← Dataset.seed d
  Normalize.run .quiet []

theorem answered_of_faintFilm :
    ∃ r w outcomes r' w', (bring faintFilm).on (World.inMemory .empty [some ⟨0⟩]) = (.ok r, w) ∧
      ((Runner.make .quiet catalog).runAll []).on w = (.ok (.ok outcomes, r'), w') ∧
      Answered w.data outcomes ∧ outcomes.countP Runner.Outcome.failed = 1 := by
  have hreturns : (bring faintFilm).returns (World.inMemory .empty [some ⟨0⟩])
      (fun _ w => (w.data.rowsOf .genre).length < 2 ^ 63 && ratioOverflows w.data) = true := by
    decide +kernel
  have haccepted : (Dataset.parse (some faintFilm.toJson) "").toOption = some faintFilm := by
    decide +kernel
  obtain ⟨r, w, hon, hw⟩ := exists_on_of_returns hreturns
  obtain ⟨hgenres, hratio⟩ := Bool.and_eq_true_iff.1 hw
  obtain ⟨applied, w₁, hmigrated, hrest⟩ := on_bind_eq_ok.1 hon
  obtain ⟨counts, w₂, hseeded, hnormalized⟩ := on_bind_eq_ok.1 hrest
  obtain ⟨outcomes, r', w', hall, hanswered⟩ :=
    answered_of_on_run (eq_ok_of_toOption haccepted) rfl hmigrated hseeded hnormalized
      (of_decide_eq_true hgenres) Params.resolve_nil .quiet
  exact ⟨r, w, outcomes, r', w', hon, hall, hanswered, by rw [hanswered.count, hratio]; rfl⟩

end Results

section Reported

/-- A world in which every query of the catalog finds its tables. -/
structure Askable (w : World) : Prop where
  obstacle : w.obstacle = none
  has : ∀ table ∈ queried, w.data.has table = true
  hasAmount : w.data.hasAmount = true

/-- What is asked of a query of the catalog by its identifier, with a new runner. -/
def Definition.asked (d : Definition) (logger : Journal.Logger) (given : Fields) (w : World) :
    Except Failure (Except Fault Result) :=
  (((Runner.make logger catalog).runQuery (some (.string d.id)) given).on w).1.map Prod.fst

/-- A query that answers some rows in a world, however it is asked. -/
structure Definition.Reports (d : Definition) (w : World) (rows : List (List Cell)) : Prop where
  statement : ∀ p, d.statement.rows p w.data = rows.map (List.map .cell)
  printed : Printable rows → ∀ logger given p, Params.resolve given = .ok p →
    d.asked logger given w = .ok (.ok ⟨d.id, d.segment, d.label, d.statement.columns,
      rows.map fun row => d.statement.columns.zip (row.map printed)⟩)
  /-- A number without bound cannot be printed. -/
  refused : ¬ Printable rows → ∀ logger given p, Params.resolve given = .ok p →
    ∃ f : Fault, f.code = .queryRowInvalid ∧ d.asked logger given w = .ok (.error f)

theorem asked_eq {d : Definition} (hd : d ∈ catalog) {w : World} (hw : w.obstacle = none)
    (logger : Journal.Logger) {given : Fields} {p : Params}
    (hgiven : Params.resolve given = .ok p) :
    d.asked logger given w = .ok (d.answerOn p w.data) := by
  rw [Definition.asked, Runner.on_runQuery nodup_ids_catalog hd given hw, Runner.answerTo, hgiven]

/-- A query of the catalog that can be made ready reports the rows of its statement. -/
theorem reports_of_prepare {d : Definition} (hd : d ∈ catalog) {w : World} (hw : w.obstacle = none)
    (hprepare : d.statement.prepare w.data = .ok ()) {rows : List (List Cell)}
    (hrows : ∀ p, d.statement.rows p w.data = rows.map (List.map .cell))
    (hlength : ∀ row ∈ rows, row.length ≤ d.statement.columns.length) : d.Reports w rows where
  statement := hrows
  printed hprintable logger given p hgiven := by
    rw [asked_eq hd hw logger hgiven, (regular_of_mem_catalog d hd).answerOn_of_prints hprepare
      ⟨rows, hrows p, hprintable⟩, hrows, List.map_map]
    simp only [Function.comp_def, List.map_map, Datum.printed]
  refused hnot logger given p hgiven := by
    have hregular := regular_of_mem_catalog d hd
    rw [asked_eq hd hw logger hgiven]
    cases hanswer : d.answerOn p w.data with
    | ok result => exact absurd (hregular.printable_of_answerOn (hrows p) hlength hanswer) hnot
    | error f => exact ⟨f, hregular.code_of_answerOn hprepare hanswer, rfl⟩

theorem reports_of_rows {d : Definition} (hd : d ∈ catalog) {w : World} (hw : Askable w)
    {rows : List (List Cell)}
    (hrows : ∀ p, d.statement.rows p w.data = rows.map (List.map .cell))
    (hlength : ∀ row ∈ rows, row.length ≤ d.statement.columns.length) : d.Reports w rows :=
  reports_of_prepare hd hw.obstacle
    ((regular_of_mem_catalog d hd).prepare_eq_ok hw.has hw.hasAmount) hrows hlength

end Reported

end FilmReport.Query
