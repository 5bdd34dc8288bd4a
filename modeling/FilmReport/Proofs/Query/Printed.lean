import FilmReport.Proofs.Query.Printable

/-!
The queries of the catalog on a store whose numbers have the sizes that a dataset and its
normalization give them: the rows of all but one can be printed.
-/

set_option autoImplicit false
set_option relaxedAutoImplicit false

namespace FilmReport

open Binary64

namespace Query

open Store

section Join

variable {α β : Type} {left : List α} {right : List β} {on : α → β → Bool} {x : α × β}

theorem fst_mem_of_join (h : x ∈ join left right on) : x.1 ∈ left :=
  (mem_join.1 h).1

theorem snd_mem_of_join (h : x ∈ join left right on) : x.2 ∈ right :=
  (mem_join.1 h).2.1

end Join

variable {p : Params} {s : Store}

theorem isPrintable_year (hs : s.IsMeasured) {m : MovieRow} (hm : m ∈ s.rowsOf .movie) :
    m.year.IsPrintable :=
  (hs.movie m hm).year.isTerm (u := 0).isPrintable

theorem isPrintable_duration (hs : s.IsMeasured) {m : MovieRow} (hm : m ∈ s.rowsOf .movie) :
    m.duration.IsPrintable :=
  (hs.movie m hm).duration.isTerm (u := 0).isPrintable

theorem isPrintable_amount (hs : s.IsMeasured) {m : MovieRow} (hm : m ∈ s.rowsOf .movie) :
    m.grossAmount.IsPrintable :=
  (hs.amount m hm).isPrintable

theorem isPrintable_average (hs : s.IsMeasured) {r : RatingRow} (hr : r ∈ s.rowsOf .ratings) :
    r.avgRating.IsPrintable :=
  (hs.rating r hr).average.isTerm.isPrintable

theorem isPrintable_votes (hs : s.IsMeasured) {r : RatingRow} (hr : r ∈ s.rowsOf .ratings) :
    r.totalVotes.IsPrintable :=
  (hs.rating r hr).votes.isWhole.isTerm (u := 0).isPrintable

theorem isPrintable_median (hs : s.IsMeasured) {r : RatingRow} (hr : r ∈ s.rowsOf .ratings) :
    r.medianRating.IsPrintable :=
  (hs.rating r hr).median.isTerm (u := 0).isPrintable

/-- The average of the ratings of some rows. -/
theorem printableTotal_rating (hs : s.IsMeasured) {ρ : Type} {items : List (ρ × RatingRow)}
    (h : ∀ item ∈ items, item.2 ∈ s.rowsOf .ratings) :
    PrintableTotal (fun part => [rounded 2 (averageRating part)]) items :=
  printableTotal_average (by decide) fun item hitem => (hs.rating _ (h item hitem)).average.isTerm

namespace Movies

theorem releasedInYear_prints (hs : s.IsMeasured) : releasedInYear.statement.Prints p s := by
  refine prints_select ((Printable.map fun m hm => ?_).sortBy _)
  simp [isPrintable_year hs (List.mem_of_mem_filter hm)]

theorem countByYear_prints (hs : s.IsMeasured) : countByYear.statement.Prints p s := by
  refine prints_select ((Printable.grouped (fun m hm => ?_) (printableTotal_count _)).sortBy _)
  simp [isPrintable_year hs hm]

theorem topRated_prints (hs : s.IsMeasured) : topRated.statement.Prints p s := by
  refine prints_select (((Printable.map fun x hx => ?_).sortBy _).take 5)
  simp [isPrintable_average hs (snd_mem_of_join hx)]

theorem highestGrossingByYear_prints (hs : s.IsMeasured) :
    highestGrossingByYear.statement.Prints p s := by
  refine prints_select ((Printable.map fun m hm => ?_).sortBy _)
  have hmovie := List.mem_of_mem_filter hm
  simp [isPrintable_year hs hmovie, isPrintable_amount hs hmovie]

theorem perfectMedian_prints (hs : s.IsMeasured) : perfectMedian.statement.Prints p s := by
  refine prints_select ((Printable.map fun x hx => ?_).sortBy _)
  have hrating := snd_mem_of_join (List.mem_of_mem_filter hx)
  simp [isPrintable_median hs hrating, isPrintable_votes hs hrating]

theorem grossByYear_prints (hs : s.IsMeasured) : grossByYear.statement.Prints p s := by
  refine prints_select ((Printable.grouped (fun m hm => ?_) ?_).sortBy _)
  · simp [isPrintable_year hs (List.mem_of_mem_filter hm)]
  · exact printableTotal_sum (by decide) (by decide) fun m hm =>
      hs.amount m (List.mem_of_mem_filter hm)

theorem countByRating_prints (hs : s.IsMeasured) : countByRating.statement.Prints p s := by
  refine prints_select ((Printable.grouped (fun r hr => ?_) (printableTotal_count _)).sortBy _)
  simp [isPrintable_average hs hr]

theorem bestYear_prints (hs : s.IsMeasured) : bestYear.statement.Prints p s := by
  refine prints_select (((Printable.grouped (fun x hx => ?_) ?_).sortBy _).take 1)
  · simp [isPrintable_year hs (fst_mem_of_join hx)]
  · exact printableTotal_rating hs fun x => snd_mem_of_join

/-- The quotient of a rating by a duration, which is one minute at least. -/
theorem ratingPerMinute_prints (hs : s.IsMeasured) : ratingPerMinute.statement.Prints p s := by
  refine prints_select (((Printable.map fun x hx => ?_).sortBy _).take 10)
  have hmovie := fst_mem_of_join (List.mem_of_mem_filter hx)
  have hrating := snd_mem_of_join (List.mem_of_mem_filter hx)
  have hquotient : (quotient x.2.avgRating x.1.duration).IsNumber (-1074) (64 - 0) := by
    refine isNumber_quotient ((hs.rating _ hrating).average.isTerm.within (by decide)) ?_
      (by decide) (by decide)
    exact (hs.movie _ hmovie).duration.isDivisor
  have hshown : (rounded 4 (quotient x.2.avgRating x.1.duration)).IsPrintable :=
    isPrintable_rounded (by decide) le_rfl hquotient
  simp [isPrintable_duration hs hmovie, isPrintable_average hs hrating, hshown]

theorem inEnglishAndMore_prints : inEnglishAndMore.statement.Prints p s :=
  prints_select ((Printable.map fun m hm => by simp).sortBy _)

theorem isPrintable_monthCell (date : Option String) : (monthCell date).IsPrintable := by
  rw [monthCell]
  split <;> simp

theorem printable_monthCounts (movies : List MovieRow) : Printable (monthCounts movies) :=
  Printable.grouped (fun m hm => by simp [isPrintable_monthCell]) (printableTotal_count _)

theorem monthsOfYear_prints : monthsOfYear.statement.Prints p s :=
  prints_select ((printable_monthCounts _).sortBy _)

theorem releasedBetween_prints : releasedBetween.statement.Prints p s :=
  prints_select ((Printable.map fun m hm => by simp).sortBy _)

theorem busiestMonth_prints : busiestMonth.statement.Prints p s :=
  prints_select (((printable_monthCounts _).sortBy _).take 1)

end Movies

namespace Genres

theorem all_prints : Genres.all.statement.Prints p s :=
  prints_select ((Printable.keysOf fun g hg => by simp).sortBy _)

theorem moviesOfSeveral_prints : moviesOfSeveral.statement.Prints p s := by
  have hgroups : Printable (grouped (fun x => [.ofText? x.2.id, .text x.2.title])
      (fun gs => [count gs]) (genreMovies s)) :=
    Printable.grouped (fun x hx => by simp) (printableTotal_count _)
  exact prints_select (((hgroups.filter _).map_drop 1).sortBy _)

theorem bestRated_prints (hs : s.IsMeasured) : bestRated.statement.Prints p s := by
  refine prints_select (((Printable.grouped (fun x hx => by simp) ?_).sortBy _).take 1)
  exact printableTotal_rating hs fun x => snd_mem_of_join

theorem shares_prints (hgenres : (s.rowsOf .genre).length < 2 ^ 63) :
    shares.statement.Prints p s := by
  refine prints_select ((Printable.grouped (fun g hg => by simp) fun part hpart => ?_).sortBy _)
  have hcount : (count part).IsNumber 0 64 :=
    Or.inr (RunningSum.within_of_natAbs le_rfl ?_).isNumber_round
  · rw [List.forall_mem_singleton]
    exact isPrintable_rounded (by decide) le_rfl
      (isNumber_percentage hcount isDivisor_ofInt (by decide) (by decide) (by decide) (by decide))
  · have hlength := hpart.length_le
    omega

theorem aboveAverage_prints (hs : s.IsMeasured) : aboveAverage.statement.Prints p s := by
  refine prints_select (((Printable.map fun x hx => ?_).sortBy _).take 1000)
  have hrated := fst_mem_of_join (fst_mem_of_join (List.mem_of_mem_filter hx))
  simp [isPrintable_average hs (snd_mem_of_join hrated)]

theorem highestGrossing_prints (hs : s.IsMeasured) : highestGrossing.statement.Prints p s := by
  refine prints_select (((Printable.grouped (fun x hx => by simp) ?_).sortBy _).take 5)
  exact printableTotal_sum (by decide) (by decide) fun x hx =>
    hs.amount _ (snd_mem_of_join (List.mem_of_mem_filter hx))

theorem averageDuration_prints (hs : s.IsMeasured) :
    Genres.averageDuration.statement.Prints p s := by
  refine prints_select ((Printable.grouped (fun x hx => by simp) ?_).sortBy _)
  exact printableTotal_average (u := 0) le_rfl fun x hx =>
    (hs.movie _ (snd_mem_of_join hx)).duration.isTerm

theorem topRatedMovies_prints (hs : s.IsMeasured) : topRatedMovies.statement.Prints p s := by
  refine prints_select ((Printable.map fun x hx => ?_).sortBy _)
  have hrated := fst_mem_of_join (List.mem_of_mem_filter hx)
  simp [isPrintable_average hs (snd_mem_of_join hrated)]

theorem longestMovies_prints (hs : s.IsMeasured) : longestMovies.statement.Prints p s := by
  refine prints_select ((Printable.map fun x hx => ?_).sortBy _)
  simp [isPrintable_duration hs (snd_mem_of_join (List.mem_of_mem_filter hx))]

end Genres

namespace Companies

theorem moviesOf_prints (hs : s.IsMeasured) : moviesOf.statement.Prints p s := by
  refine prints_select ((Printable.map fun m hm => ?_).sortBy _)
  simp [isPrintable_year hs (List.mem_of_mem_filter hm)]

theorem highestGrossing_prints (hs : s.IsMeasured) :
    Companies.highestGrossing.statement.Prints p s := by
  refine prints_select (((Printable.grouped (fun m hm => by simp) ?_).sortBy _).take 5)
  exact printableTotal_sum (by decide) (by decide) fun m hm =>
    hs.amount m (List.mem_of_mem_filter hm)

theorem averageGross_prints (hs : s.IsMeasured) : averageGross.statement.Prints p s := by
  refine prints_select ((Printable.grouped (fun m hm => by simp) ?_).sortBy _)
  exact printableTotal_average (u := -60) (by decide) fun m hm =>
    hs.amount m (List.mem_of_mem_filter (List.mem_of_mem_filter hm))

theorem averageDuration_prints (hs : s.IsMeasured) :
    Companies.averageDuration.statement.Prints p s := by
  refine prints_select ((Printable.grouped (fun m hm => by simp) ?_).sortBy _)
  exact printableTotal_average (u := 0) le_rfl fun m hm =>
    (hs.movie m (List.mem_of_mem_filter hm)).duration.isTerm

end Companies

namespace Regions

theorem printable_valueCounts (rows : List MembershipRow) : Printable (valueCounts rows) :=
  Printable.grouped (fun v hv => by simp) (printableTotal_count _)

theorem commonestLanguage_prints : commonestLanguage.statement.Prints p s :=
  prints_select (((printable_valueCounts _).sortBy _).take 1)

theorem busiestCountries_prints : busiestCountries.statement.Prints p s :=
  prints_select (((printable_valueCounts _).sortBy _).take 5)

theorem printable_valueRatings (hs : s.IsMeasured) (rows : List MembershipRow) :
    Printable (valueRatings s rows) :=
  Printable.grouped (fun x hx => by simp) (printableTotal_rating hs fun x => snd_mem_of_join)

theorem ratingByLanguage_prints (hs : s.IsMeasured) : ratingByLanguage.statement.Prints p s :=
  prints_select ((printable_valueRatings hs _).sortBy _)

theorem ratingByCountry_prints (hs : s.IsMeasured) : ratingByCountry.statement.Prints p s :=
  prints_select ((printable_valueRatings hs _).sortBy _)

theorem grossShares_prints (hs : ∀ m ∈ s.rowsOf .movie, m.grossAmount.IsTerm (-60)) :
    grossShares.statement.Prints p s := by
  refine prints_select ((Printable.grouped (fun x hx => by simp) fun part hpart => ?_).sortBy _)
  have hpartial : (sum (part.map fun x => x.2.grossAmount)).IsNumber (-60) 181 :=
    isNumber_sum (by decide) (isTerm_of_sublist (fun x hx =>
      hs _ (snd_mem_of_join (List.mem_of_mem_filter hx))) hpart)
  have hwhole : (sum ((s.rowsOf .movie).map (·.grossAmount))).IsNumber (-60) 181 :=
    isNumber_sum (by decide) (List.forall_mem_map.2 hs)
  rw [List.forall_mem_singleton]
  exact isPrintable_rounded (by decide) le_rfl (isNumber_percentage hpartial hwhole.isDivisor
    (by decide) (by decide) (by decide) (by decide))

theorem commonestGenres_prints : commonestGenres.statement.Prints p s := by
  have hgroups : Printable (countryGenres s) :=
    Printable.grouped (fun x hx => by simp) (printableTotal_count _)
  exact prints_select ((hgroups.filter _).sortBy _)

theorem highestGrossingByLanguage_prints (hs : s.IsMeasured) :
    highestGrossingByLanguage.statement.Prints p s := by
  refine prints_select ((Printable.map fun x hx => ?_).sortBy _)
  simp [isPrintable_amount hs (snd_mem_of_join (List.mem_of_mem_filter hx))]

end Regions

namespace People

theorem moviesOfActor_prints (hs : s.IsMeasured) : moviesOfActor.statement.Prints p s := by
  refine prints_select ((Printable.map fun x hx => ?_).sortBy _)
  simp [isPrintable_year hs (snd_mem_of_join (List.mem_of_mem_filter hx))]

theorem printable_personCounts {ρ : Type} (rows : List (ρ × NameRow)) :
    Printable (grouped personName (fun part => [count part]) rows) :=
  Printable.grouped (fun x hx => by simp [personName]) (printableTotal_count _)

theorem moviesByDirector_prints : moviesByDirector.statement.Prints p s :=
  prints_select ((printable_personCounts _).sortBy _)

theorem busiestActors_prints : busiestActors.statement.Prints p s :=
  prints_select (((printable_personCounts _).sortBy _).take 10)

theorem bestDirectors_prints (hs : s.IsMeasured) : bestDirectors.statement.Prints p s := by
  refine prints_select (((Printable.grouped (fun x hx => by simp [personName]) ?_).sortBy _).take 5)
  exact printableTotal_rating hs fun x => snd_mem_of_join

theorem busiestDirectorYear_prints (hs : s.IsMeasured) :
    busiestDirectorYear.statement.Prints p s := by
  refine prints_select
    (((Printable.grouped (fun x hx => ?_) (printableTotal_count _)).sortBy _).take 1)
  simp [personName, isPrintable_year hs (snd_mem_of_join hx)]

theorem commonestPair_prints : commonestPair.statement.Prints p s :=
  prints_select (((Printable.grouped (fun x hx => by simp [personName])
    (printableTotal_count _)).sortBy _).take 1)

theorem actorsByDirectors_prints : actorsByDirectors.statement.Prints p s :=
  prints_select (((Printable.grouped (fun x hx => by simp [personName])
    (printableTotal_countDistinct _ _)).sortBy _).take 10)

theorem commonestDirectorGenres_prints : commonestDirectorGenres.statement.Prints p s :=
  prints_select (((Printable.grouped (fun x hx => by simp [personName])
    (printableTotal_count _)).sortBy _).take 3)

theorem bestActors_prints (hs : s.IsMeasured) : bestActors.statement.Prints p s := by
  have hrating : PrintableTotal _ (playedRatings s) :=
    printableTotal_rating hs fun x => snd_mem_of_join
  exact prints_select ((((Printable.grouped (fun x hx => by simp [personName])
    (hrating.append (printableTotal_count _))).filter _).sortBy _).take 5)

/-- The averages of directors are printed as they are. -/
theorem printable_directorAverages (hs : s.IsMeasured) : Printable (directorAverages s) := by
  refine Printable.grouped (fun x hx => by simp) fun part hpart => ?_
  rw [List.forall_mem_singleton]
  refine (isNumber_average (u := -1074) (by decide) (isTerm_of_sublist ?_ hpart)).isPrintable
  exact fun x hx => (hs.rating _ (snd_mem_of_join hx)).average.isTerm

theorem aboveDirectorAverage_prints (hs : s.IsMeasured) :
    aboveDirectorAverage.statement.Prints p s := by
  refine prints_select ((Printable.map fun x hx => ?_).sortBy _)
  have hjoined := List.mem_of_mem_filter hx
  have hrating := snd_mem_of_join (fst_mem_of_join (fst_mem_of_join hjoined))
  have haverage :=
    isPrintable_cellAt (printable_directorAverages hs x.2 (snd_mem_of_join hjoined)) 1
  simp [isPrintable_average hs hrating, haverage]

theorem actorByGenres_prints : actorByGenres.statement.Prints p s :=
  prints_select (((Printable.grouped (fun x hx => by simp [personName])
    (printableTotal_countDistinct _ _)).sortBy _).take 1)

theorem directorByActors_prints : directorByActors.statement.Prints p s :=
  prints_select (((Printable.grouped (fun x hx => by simp [personName])
    (printableTotal_countDistinct _ _)).sortBy _).take 1)

theorem actorsByCountries_prints : actorsByCountries.statement.Prints p s :=
  prints_select (((Printable.grouped (fun x hx => by simp [personName])
    (printableTotal_countDistinct _ _)).sortBy _).take 5)

theorem highestGrossingActor_prints (hs : s.IsMeasured) :
    highestGrossingActor.statement.Prints p s := by
  refine prints_select (((Printable.grouped (fun x hx => by simp [personName]) ?_).sortBy _).take 1)
  exact printableTotal_sum (by decide) (by decide) fun x hx =>
    hs.amount _ (snd_mem_of_join (List.mem_of_mem_filter hx))

theorem highestGrossingDirectors_prints (hs : s.IsMeasured) :
    highestGrossingDirectors.statement.Prints p s := by
  have haverage : PrintableTotal _ ((directedMovies s).filter fun x => hasGross x.2) :=
    printableTotal_average (by decide) fun x hx =>
      hs.amount _ (snd_mem_of_join (List.mem_of_mem_filter hx))
  exact prints_select ((((Printable.grouped (fun x hx => by simp [personName])
    (haverage.append (printableTotal_count _))).filter _).sortBy _).take 5)

theorem commonestCoActors_prints : commonestCoActors.statement.Prints p s :=
  prints_select (((Printable.grouped (fun x hx => by simp [personName])
    (printableTotal_count _)).sortBy _).take 1)

end People

end Query
end FilmReport
