import FilmReport.Proofs.Dataset.ReadBack
import FilmReport.Proofs.Normalize.Reseeded
import FilmReport.Proofs.Binary64.Order
import FilmReport.Proofs.Query.Catalog.Rankings

/-!
Averages of ratings where some are missing. A run fills in zero for a missing one, and the queries
average all ratings there are, so that a record without an average counts as a rating of zero: it
adds nothing to the total of a name, but is one more among which this is shared out
(`CountsAsZero.diluted`).

Datasets that differ in their ratings leave the same rows in all other tables. The score of a film is
the average of its last rating, zero where that is missing, and a record without an average is a
score of zero, if no later record of the same film takes its place (`Dataset.score_insert`).
-/

set_option autoImplicit false
set_option relaxedAutoImplicit false

namespace FilmReport

open Store

namespace Dataset

section Scores

variable {α κ : Type} [DecidableEq κ] {key : α → κ} {before after : List α} {a : α} {k : κ}

theorem lastOf_append (before after : List α) :
    lastOf key (before ++ after) k = (lastOf key after k).or (lastOf key before k) := by
  rw [lastOf, lastOf, lastOf, List.filter_append, List.getLast?_append]

theorem lastOf_singleton : lastOf key [a] k = if key a = k then some a else none := by
  by_cases h : key a = k <;> simp [lastOf, h]

theorem lastOf_eq_none_iff : lastOf key after k = none ↔ ∀ b ∈ after, key b ≠ k := by
  rw [lastOf, List.getLast?_eq_none_iff, List.filter_eq_nil_iff]
  simp

/-- A record in a list is the last one with its key, if none with this key comes after it. -/
theorem lastOf_insert : lastOf key (before ++ a :: after) k =
    if key a = k ∧ ∀ b ∈ after, key b ≠ k then some a else lastOf key (before ++ after) k := by
  rw [List.append_cons, lastOf_append, lastOf_append before [a], lastOf_append before after,
    lastOf_singleton]
  simp only [← lastOf_eq_none_iff]
  cases lastOf key after k with
  | some b => simp
  | none => by_cases hkey : key a = k <;> simp [hkey]

/-- The score of a film: the average of its last rating, zero where that is missing. -/
def score (d : Dataset) (id : String) : Option ℚ :=
  (lastOf Rating.movieId d.ratings id).map fun r => r.avgRating.getD 0

theorem score_insert {d : Dataset} {before after : List Rating} {r : Rating}
    (hratings : d.ratings = before ++ r :: after) (hr : r.avgRating = none) (id : String) :
    d.score id = if r.movieId = id ∧ ∀ x ∈ after, x.movieId ≠ id then some 0
      else score { d with ratings := before ++ after } id := by
  rw [score, hratings, lastOf_insert]
  split
  · rw [Option.map_some, hr]
    rfl
  · rfl

theorem score_eq_none {d : Dataset} {id : String} (h : ∀ x ∈ d.ratings, x.movieId ≠ id) :
    d.score id = none := by
  rw [score, lastOf_eq_none_iff.2 h]
  rfl

end Scores

section Ratings

variable {d : Dataset} {ratings : List Rating} {w v v' : World}

theorem IsResolved.of_ratings {s : Store} (h : d.IsResolved s) (hsubset : ratings ⊆ d.ratings) :
    IsResolved { d with ratings := ratings } s :=
  { h with ratingMovies := fun r hr => h.ratingMovies r (hsubset hr) }

/-- Seedings of datasets that differ in their ratings leave the same other tables. -/
theorem get_of_on_seed_ratings {tally tally' : Fields} (hd : d.Keeps)
    (hd' : Keeps { d with ratings := ratings }) (hw : w.Ready) (h : (seed d).on w = (.ok tally, v))
    (h' : (seed { d with ratings := ratings }).on w = (.ok tally', v')) :
    ∀ t ≠ .ratings, v'.data.get t = v.data.get t := by
  let shared : List Batch :=
    parents d ++ [.ofRecords .genres Genre.fields Genre.row d.genres,
      .ofRecords .directings Directing.fields Directing.row d.directings,
      .ofRecords .castings Casting.fields Casting.row d.castings]
  let last (records : List Rating) : Batch :=
    .ofRecords .ratings Rating.fields Rating.row records
  -- All batches but the last one are the same, so that both come to the same store before it.
  have hsplit : ∀ {records : List Rating} {tally : Fields} {x : World},
      Keeps { d with ratings := records } →
      (seed { d with ratings := records }).on w = (.ok tally, x) →
      ∃ u, Act.Computes.Chain Batch.Writes shared w.data u ∧
        ∀ t ≠ .ratings, x.data.get t = u.get t := by
    intro records tally x hkeeps hon
    have hall : batches { d with ratings := records } = shared ++ [last records] := rfl
    obtain ⟨-, -, t, hparents, hchildren⟩ := (computes_seed _).of_on hw hon
    have hchain := Act.Computes.chain_append.2 ⟨t, hparents, hchildren⟩
    rw [← batches, hall, Act.Computes.chain_append] at hchain
    obtain ⟨u, hshared, y, hlast, rfl⟩ := hchain
    have hbatches := hkeeps.batches
    rw [hall, List.forall_mem_append] at hbatches
    have hgiven := (hbatches.2 _ (List.mem_singleton_self _)).1
    exact ⟨u, hshared, fun t ht => get_of_inserts (Batch.inserts_of_writes hgiven hlast) ht⟩
  obtain ⟨u, hchain, hothers⟩ := hsplit hd h
  obtain ⟨u', hchain', hothers'⟩ := hsplit hd' h'
  obtain ⟨y, hon, rfl, -⟩ := (computes_batches shared).exists_on (a := ()) hw hchain
  obtain ⟨y', hon', rfl, -⟩ := (computes_batches shared).exists_on (a := ()) hw hchain'
  obtain ⟨-, rfl⟩ := Prod.mk.inj (hon.symm.trans hon')
  exact fun t ht => (hothers' t ht).trans (hothers t ht).symm

end Ratings

end Dataset

namespace Normalize

variable {options : SplitOptions} {s s' : Store}

/-- What a run leaves: the normalized store with a record of the run. -/
theorem exists_data_of_on_run {logger : Journal.Logger} {given : Fields} {w w' : World} {r : Run}
    (h : (run logger given).on w = (.ok r, w')) : ∃ options row,
      SplitOptions.resolve given = .ok options ∧ w'.data = withRun row (normalized options w.data)
    := by
  obtain ⟨options, s, hresolve, -, hperformed, -, ⟨-, -, -, hdata⟩, -⟩ := of_on_run h
  obtain ⟨-, -, rfl⟩ := performed_iff.1 hperformed
  exact ⟨options, _, hresolve, hdata⟩

/-- Ratings do not matter to what becomes of the other tables. -/
theorem get_normalized_of_ne_ratings (h : ∀ t ≠ .ratings, s'.get t = s.get t) :
    ∀ t ≠ .ratings, (normalized options s').get t = (normalized options s).get t := by
  have hmovie : s'.movie = s.movie := h .movie (by decide)
  have hrows : s'.rowsOf .movie = s.rowsOf .movie :=
    congrArg (fun m => (m.getD []).map (·.row)) hmovie
  intro t ht
  cases t
  case ratings => exact absurd rfl ht
  case movie => exact congrArg (Option.map (mapRows normalMovie)) hmovie
  case movieCountry => exact congrArg (fun m => some (rebuiltRows .country options m)) hrows
  case movieLanguage => exact congrArg (fun m => some (rebuiltRows .language options m)) hrows
  case stagedCountry => rfl
  case stagedLanguage => rfl
  all_goals exact h _ ht

end Normalize

namespace Dataset

open Normalize

/-- The ratings of a store average as the scores of films say. -/
def RatesBy (score : String → Option ℚ) (s : Store) : Prop :=
  ∀ id, ((s.rowsOf .ratings).filter fun r => r.movieId = some id).map (·.avgRating) =
    (score id).toList.map fun q => .real (.finite q)

theorem avgRating_filledRating (r : Rating) :
    (filledRating r.row).avgRating = .real (.finite (r.avgRating.getD 0)) := by
  rw [filledRating, Rating.row]
  cases r.avgRating <;> rfl

/-- After a run, the ratings of a dataset are its scores. -/
theorem ratesBy_score {d : Dataset} {s s' : Store} (h : Holds d s)
    (hratings : s'.rowsOf .ratings = (s.rowsOf .ratings).map filledRating) :
    RatesBy d.score s' := by
  intro id
  have hlast := h.ratings.filter_eq (p := fun r => r.movieId = some id) (k := id)
    fun r => by simp [Rating.row]
  rw [hratings, List.filter_map, List.map_map]
  have hkeeps : ((fun r : RatingRow => decide (r.movieId = some id)) ∘ filledRating) =
      fun r => decide (r.movieId = some id) := rfl
  rw [hkeeps, hlast, List.map_map, score]
  cases lastOf Rating.movieId d.ratings id with
  | none => rfl
  | some r => exact congrArg (fun c => [c]) (avgRating_filledRating r)

end Dataset
end FilmReport

namespace FilmReport.Query

open Store Dataset Normalize

section Scores

variable {κ : Type} [DecidableEq κ]

/-- The scores of entries, each under its name, of those whose film has one. -/
def scored (score : String → Option ℚ) (entries : List (κ × Option String)) : List (κ × ℚ) :=
  entries.filterMap fun e => (e.2.bind score).map (Prod.mk e.1)

/-- The scores under a name. -/
def scoresOf (scores : List (κ × ℚ)) (k : κ) : List ℚ :=
  (scores.filter fun e => e.1 = k).map Prod.snd

/-- Scores as cells. -/
def scoreCells (scores : List ℚ) : List Cell :=
  scores.map fun q => .real (.finite q)

/-- The sum of scores. -/
def totalScore (scores : List ℚ) : Binary64 :=
  (Tally.ofCells (scoreCells scores)).value

/-- A total shared out among a number of scores, if there are any. -/
def mean (total : Binary64) : Nat → Cell
  | 0 => .null
  | n + 1 => ofNumber (total.div (.ofInt (n + 1 : Nat)))

theorem average_scoreCells (scores : List ℚ) :
    average (scoreCells scores) = mean (totalScore scores) scores.length := by
  have hpresent : present (scoreCells scores) = scoreCells scores := by
    rw [present, List.filter_eq_self]
    exact List.forall_mem_map.2 fun _ _ => rfl
  rw [average, hpresent]
  cases scores with
  | nil => rfl
  | cons q rest => simp [scoreCells, mean, totalScore]

theorem foldl_add_approximate (scores : List ℚ) (s : Binary64.RunningSum) :
    (scoreCells scores).foldl Tally.add (.approximate s) =
      .approximate ((scores.map .finite).foldl .push s) := by
  induction scores generalizing s with
  | nil => rfl
  | cons q rest ih => exact ih _

/-- Scores are added with compensation from the first one on. -/
theorem totalScore_eq (scores : List ℚ) :
    totalScore scores = ((scores.map .finite).foldl .push (Binary64.RunningSum.ofInt 0)).value := by
  cases scores with
  | nil => decide +kernel
  | cons q rest => exact congrArg Tally.value (foldl_add_approximate rest _)

/-- Zeros add nothing to a sum of scores. -/
theorem totalScore_filter (scores : List ℚ) :
    totalScore (scores.filter fun q => q ≠ 0) = totalScore scores := by
  have hstart : (Binary64.RunningSum.ofInt 0).IsRounded :=
    ⟨Binary64.isRounded_finite_zero, Binary64.isRounded_finite_zero⟩
  have hzero : (fun x => decide (x ≠ .finite 0)) ∘ Binary64.finite = fun q : ℚ => decide (q ≠ 0) :=
    funext fun q => by simp
  rw [totalScore_eq, totalScore_eq, Binary64.RunningSum.value_foldl_push (scores.map _) hstart,
    List.filter_map, hzero]

/-- What an entry adds to the scores under a name. -/
def scoreUnder (score : String → Option ℚ) (k : κ) (e : κ × Option String) : Option ℚ :=
  if e.1 = k then e.2.bind score else none

theorem scoresOf_scored (score : String → Option ℚ) (entries : List (κ × Option String)) (k : κ) :
    scoresOf (scored score entries) k = entries.filterMap (scoreUnder score k) := by
  induction entries with
  | nil => rfl
  | cons e rest ih =>
    rw [scored, scoresOf, List.filterMap_cons, List.filterMap_cons, ← ih]
    cases hscore : e.2.bind score <;> by_cases hk : e.1 = k <;>
      simp [scoresOf, scored, scoreUnder, hk, hscore]

variable {score score' : String → Option ℚ} {film : String} {k : κ}

/-- Where films have the same scores but for one, so have all entries but those of this film. -/
theorem scoreUnder_congr (h : ∀ id, id ≠ film → score id = score' id) {e : κ × Option String}
    (he : e ≠ (k, some film)) : scoreUnder score k e = scoreUnder score' k e := by
  obtain ⟨name, _ | id⟩ := e
  · rfl
  · rw [scoreUnder, scoreUnder]
    split
    · next hk =>
      refine h id ?_
      rintro rfl
      exact he (congrArg (·, some id) hk)
    · rfl

theorem scoresOf_congr {entries : List (κ × Option String)}
    (h : ∀ id, id ≠ film → score id = score' id) (hfilm : (k, some film) ∉ entries) :
    scoresOf (scored score entries) k = scoresOf (scored score' entries) k := by
  rw [scoresOf_scored, scoresOf_scored]
  exact List.filterMap_congr fun e he => scoreUnder_congr h fun heq => hfilm (heq ▸ he)

/-- Where only one film has another score, a zero in place of none, there are as many more scores
under a name as entries of the film, and without zeros they are the same. -/
theorem scoresOf_of_zero (h : ∀ id, id ≠ film → score id = score' id)
    (hzero : score film = some 0) (hnone : score' film = none)
    (entries : List (κ × Option String)) (k : κ) :
    (scoresOf (scored score entries) k).length =
        (scoresOf (scored score' entries) k).length + entries.count (k, some film) ∧
      (scoresOf (scored score entries) k).filter (fun q => q ≠ 0) =
        (scoresOf (scored score' entries) k).filter fun q => q ≠ 0 := by
  rw [scoresOf_scored, scoresOf_scored]
  induction entries with
  | nil => exact ⟨rfl, rfl⟩
  | cons e rest ih =>
    obtain ⟨hlength, hfilter⟩ := ih
    rw [List.filterMap_cons, List.filterMap_cons]
    by_cases he : e = (k, some film)
    · subst he
      have hscore : scoreUnder score k (k, some film) = some 0 := (if_pos rfl).trans hzero
      have hscore' : scoreUnder score' k (k, some film) = none := (if_pos rfl).trans hnone
      rw [hscore, hscore', List.length_cons, List.count_cons_self, hlength, ← hfilter]
      exact ⟨rfl, List.filter_cons_of_neg (by simp)⟩
    · rw [List.count_cons_of_ne he, scoreUnder_congr h he]
      cases scoreUnder score' k e with
      | none => exact ⟨hlength, hfilter⟩
      | some q =>
        dsimp only
        rw [List.length_cons, List.length_cons, hlength, List.filter_cons, List.filter_cons,
          hfilter]
        exact ⟨Nat.add_right_comm _ _ _, rfl⟩

/-- Zeros in place of nothing leave the total, but share it out among more. -/
theorem average_of_zero (h : ∀ id, id ≠ film → score id = score' id)
    (hzero : score film = some 0) (hnone : score' film = none)
    (entries : List (κ × Option String)) (k : κ) :
    average (scoreCells (scoresOf (scored score entries) k)) =
      mean (totalScore (scoresOf (scored score' entries) k))
        ((scoresOf (scored score' entries) k).length + entries.count (k, some film)) := by
  obtain ⟨hlength, hfilter⟩ := scoresOf_of_zero h hzero hnone entries k
  rw [average_scoreCells, hlength, ← totalScore_filter, hfilter, totalScore_filter]

end Scores

section Lists

/-- The directings of persons by their names. -/
def directorEntries (s : Store) : List (String × Option String) :=
  (directedBy s).map fun x => (x.2.name, some x.1.movieId)

def genreEntries (s : Store) : List (String × Option String) :=
  (s.rowsOf .genre).map fun g => (g.genre, some g.movieId)

def valueEntries (rows : List MembershipRow) : List (String × Option String) :=
  rows.map fun v => (v.value, some v.movieId)

def yearEntries (s : Store) : List (Cell × Option String) :=
  (s.rowsOf .movie).map fun m => (m.year.normal, m.id)

variable {κ α : Type} [DecidableEq κ]

/-- The average score of a name. -/
def averageScore (scores : List (κ × ℚ)) (k : κ) : Cell :=
  average (scoreCells (scoresOf scores k))

/-- A query that lists the first names by the average of their scores. -/
def ListsAverages (d : Definition) (w : World) (limit : Nat) (label : κ → Cell)
    (scores : List (κ × ℚ)) : Prop :=
  ListsTop d w limit 2 (averageScore scores) label
    (fun k => [label k, rounded 2 (averageScore scores k)]) (scores.map Prod.fst).dedup

omit [DecidableEq κ] in
/-- A join with ratings is one with scores. -/
theorem map_join_ratings {score : String → Option ℚ} {s : Store} (h : RatesBy score s)
    (left : List α) (on : α → RatingRow → Bool) (name : α → κ) (film : α → Option String)
    (hon : ∀ a r, on a r = true ↔ ∃ id, film a = some id ∧ r.movieId = some id) :
    (join left (s.rowsOf .ratings) on).map (fun x => (name x.1, x.2.avgRating)) =
      (scored score (left.map fun a => (name a, film a))).map
        fun e => (e.1, .real (.finite e.2)) := by
  have hpartners : ∀ a, ((s.rowsOf .ratings).filter (on a)).map (·.avgRating) =
      ((film a).bind score).toList.map fun q => .real (.finite q) := by
    intro a
    cases hfilm : film a with
    | none =>
      rw [List.filter_eq_nil_iff.2 fun r _ hr => ?_]
      · rfl
      · obtain ⟨id, hid, -⟩ := (hon a r).1 hr
        rw [hfilm] at hid
        cases hid
    | some id =>
      refine Eq.trans (congrArg _ (List.filter_congr fun r _ => ?_)) (h id)
      rw [Bool.eq_iff_iff, hon, hfilm, decide_eq_true_eq]
      simp
  rw [join, List.map_flatMap, scored, List.filterMap_map, List.filterMap_eq_flatMap_toList,
    List.map_flatMap]
  refine List.flatMap_congr fun a _ => ?_
  have hpairs := congrArg (List.map (Prod.mk (name a))) (hpartners a)
  rw [List.map_map, List.map_map] at hpairs
  rw [List.map_map]
  refine hpairs.trans ?_
  change _ = (((film a).bind score).map (Prod.mk (name a))).toList.map _
  cases (film a).bind score <;> rfl

/-- Queries that average ratings by name list averages of scores. -/
theorem listsAverages_of_join {d : Definition} (hd : d ∈ catalog) {w : World} (hw : Askable w)
    {score : String → Option ℚ} (h : RatesBy score w.data) {limit : Nat} {left : List α}
    {on : α → RatingRow → Bool} {rows : List (α × RatingRow)}
    (hjoin : rows = join left (w.data.rowsOf .ratings) on) {name : α → κ}
    {film : α → Option String}
    (hon : ∀ a r, on a r = true ↔ ∃ id, film a = some id ∧ r.movieId = some id)
    (key : α × RatingRow → List Cell) {label : κ → Cell} (hlabel : label.Injective)
    (hkey : ∀ x, normalKey key x = [label (name x.1)])
    (hnan : ∀ a ∈ left, label (name a) ≠ .real .nan)
    (hrows : ∀ p, d.statement.rows p w.data = ((sortBy [.down 1, .up 0] <|
      grouped key (fun part => [rounded 2 (averageRating part)]) rows).take limit).map
        (List.map .cell))
    (hlength : 2 ≤ d.statement.columns.length) :
    ListsAverages d w limit label (scored score (left.map fun a => (name a, film a))) := by
  subst hjoin
  have hmap := map_join_ratings h left on name film hon
  have hnames : (join left (w.data.rowsOf .ratings) on).map (fun x => name x.1) =
      (scored score (left.map fun a => (name a, film a))).map Prod.fst := by
    have hfst := congrArg (List.map Prod.fst) hmap
    rwa [List.map_map, List.map_map] at hfst
  have haverage : averageOf (fun x => name x.1) (join left (w.data.rowsOf .ratings) on) =
      averageScore (scored score (left.map fun a => (name a, film a))) := by
    funext k
    have hsnd := congrArg (fun rows => (rows.filter fun x => x.1 = k).map Prod.snd) hmap
    simp only [List.filter_map, List.map_map] at hsnd
    rw [averageOf, averageRating, averageScore, scoreCells, scoresOf, List.map_map]
    exact congrArg average hsnd
  rw [ListsAverages, ← hnames, ← haverage]
  exact listsTop_of_groups hd hw key hlabel hkey (fun x hx => hnan x.1 (mem_join.1 hx).1) hrows
    hlength

/-- A query that lists all names by the average of their scores. -/
def ListsAllAverages (d : Definition) (w : World) (label : κ → Cell) (scores : List (κ × ℚ)) :
    Prop :=
  ListsAverages d w scores.length label scores

/-- Where all names are listed and there is one at most, the list is known. -/
theorem ListsAllAverages.reports {d : Definition} {w : World} {label : κ → Cell}
    {scores : List (κ × ℚ)} (h : ListsAllAverages d w label scores) {names : List κ}
    (hnames : (scores.map Prod.fst).dedup = names) (hone : names.length ≤ 1) :
    d.Reports w (names.map fun k => [label k, rounded 2 (averageScore scores k)]) := by
  obtain ⟨listed, rest, htop, hreports⟩ := ListsTop.reports h
  have hle : names.length ≤ scores.length := by
    rw [← hnames, ← List.length_map Prod.fst]
    exact (List.dedup_sublist _).length_le
  have hall := htop.length
  rw [hnames, Nat.min_eq_right hle] at hall
  have hperm := htop.perm
  rw [hnames] at hperm
  obtain rfl : rest = [] := by
    have hlength := hperm.length_eq
    rw [List.length_append, hall, Nat.add_eq_left] at hlength
    exact List.eq_nil_of_length_eq_zero hlength
  rw [List.append_nil] at hperm
  have hlisted : listed = names := by
    match names, hone with
    | [], _ => exact hperm.eq_nil
    | [k], _ => exact List.perm_singleton.1 hperm
  exact hlisted ▸ hreports

/-- What the queries for averages of ratings list in a world in which films have scores. -/
structure AveragesScores (score : String → Option ℚ) (w : World) : Prop where
  directors : ListsAverages People.bestDirectors w 5 .text (scored score (directorEntries w.data))
  genres : ListsAverages Genres.bestRated w 1 .text (scored score (genreEntries w.data))
  years : ListsAverages Movies.bestYear w 1 id (scored score (yearEntries w.data))
  languages : ListsAllAverages Regions.ratingByLanguage w .text
    (scored score (valueEntries (w.data.rowsOf .movieLanguage)))
  countries : ListsAllAverages Regions.ratingByCountry w .text
    (scored score (valueEntries (w.data.rowsOf .movieCountry)))

theorem listsAllAverages_of_values {d : Definition} (hd : d ∈ catalog) {w : World} (hw : Askable w)
    {score : String → Option ℚ} (h : RatesBy score w.data) (rows : List MembershipRow)
    (hrows : ∀ p, d.statement.rows p w.data =
      (sortBy [.down 1, .up 0] (Regions.valueRatings w.data rows)).map (List.map .cell))
    (hlength : 2 ≤ d.statement.columns.length) :
    ListsAllAverages d w .text (scored score (valueEntries rows)) := by
  let on (v : MembershipRow) (r : RatingRow) : Bool := r.movieId = some v.movieId
  have hon : ∀ v r, on v r = true ↔ ∃ id, some v.movieId = some id ∧ r.movieId = some id := by
    simp [on]
  have hscores := congrArg List.length (map_join_ratings h rows on (·.value) _ hon)
  rw [List.length_map, List.length_map] at hscores
  have hle : (sortBy [.down 1, .up 0] (Regions.valueRatings w.data rows)).length ≤
      (scored score (valueEntries rows)).length := by
    rw [sortBy, (orderBy_perm _ _).length_eq, valueEntries, ← hscores]
    exact length_grouped_le _ _ _
  refine listsAverages_of_join hd hw h rfl hon (fun x => [.text x.1.value])
    (fun _ _ => Cell.text.inj) (fun _ => rfl) (by simp) (fun p => ?_) hlength
  rw [hrows, ← List.take_of_length_le hle]
  rfl

theorem averagesScores_of_ratesBy {w : World} (hw : Askable w) {score : String → Option ℚ}
    (h : RatesBy score w.data) (hyears : ∀ m ∈ w.data.rowsOf .movie, m.year ≠ .real .nan) :
    AveragesScores score w where
  directors := by
    have hjoin : directedRatings w.data = join _ _ _ := rfl
    exact listsAverages_of_join (by simp [catalog]) hw h hjoin (fun x r => by simp)
      (fun x => personName x.1) (fun _ _ => Cell.text.inj) (fun _ => rfl) (by simp) (fun _ => rfl)
      le_rfl
  genres := by
    have hjoin : genreRatings w.data = join _ _ _ := rfl
    exact listsAverages_of_join (by simp [catalog]) hw h hjoin (fun g r => by simp)
      (fun x => [.text x.1.genre]) (fun _ _ => Cell.text.inj) (fun _ => rfl) (by simp)
      (fun _ => rfl) le_rfl
  years := by
    have hjoin : ratedMovies w.data = join _ _ _ := rfl
    refine listsAverages_of_join (by simp [catalog]) hw h hjoin (fun m r => ?_)
      (fun x => [x.1.year]) Function.injective_id (fun _ => rfl)
      (fun m hm => Cell.normal_ne_nan (hyears m hm)) (fun _ => rfl) le_rfl
    cases m.id <;> simp [eq_comm]
  languages := listsAllAverages_of_values (by simp [catalog]) hw h _ (fun _ => rfl) le_rfl
  countries := listsAllAverages_of_values (by simp [catalog]) hw h _ (fun _ => rfl) le_rfl

end Lists

section Runs

variable {d : Dataset} {w v u : World} {tally given : Fields} {logger : Journal.Logger}
  {report : Run}

/-- After a dataset was seeded into fresh tables and normalized, its scores are averaged. -/
theorem averagesScores_of_on_run (hd : d.Keeps) (hw : w.Ready) (hfresh : w.data.IsFresh)
    (hseed : (seed d).on w = (.ok tally, v)) (hrun : (run logger given).on v = (.ok report, u)) :
    AveragesScores d.score u := by
  have hseeds := seeds_of_on hd hw hfresh.migrated hseed
  have hholds := hseeds.holds hfresh.rows
  have hmigrated := isMigrated_of_on_run hseeds.migrated hrun
  obtain ⟨-, -, -, hready, -, -, -, hcontinues⟩ := of_on_run hrun
  obtain ⟨options, row, -, hdata⟩ := exists_data_of_on_run hrun
  have hratings : u.data.rowsOf .ratings = (v.data.rowsOf .ratings).map filledRating := by
    rw [hdata]
    exact rowsOf_mapRows (t := .ratings) rfl
  have hmovies : u.data.rowsOf .movie = (v.data.rowsOf .movie).map normalMovie := by
    rw [hdata]
    exact rowsOf_mapRows (t := .movie) rfl
  refine averagesScores_of_ratesBy ⟨(hcontinues.ready.2 hready).obstacle,
    fun t _ => hmigrated.tables t, hmigrated.hasAmount⟩ (ratesBy_score hholds hratings) ?_
  rw [hmovies, List.forall_mem_map]
  intro m hm
  obtain ⟨movie, hlast, rfl⟩ := (hholds.movies.mem_iff m).1 hm
  have hyear := toInteger_cellOf (hd.movies movie (mem_of_lastOf hlast).1).year
  change (cellOf movie.year).toInteger ≠ .real .nan
  rw [hyear]
  cases movie.year <;> exact Cell.noConfusion

/-- After datasets that differ in their ratings were seeded and normalized, all other rows that are
queried are the same. -/
theorem rowsOf_of_on_run {ratings : List Rating} {v' u' : World} {tally' : Fields} {report' : Run}
    (hd : d.Keeps) (hd' : Keeps { d with ratings := ratings }) (hw : w.Ready)
    (hseed : (seed d).on w = (.ok tally, v))
    (hseed' : (seed { d with ratings := ratings }).on w = (.ok tally', v'))
    (hrun : (run logger given).on v = (.ok report, u))
    (hrun' : (run logger given).on v' = (.ok report', u')) :
    ∀ t ∈ queried, t ≠ .ratings → u'.data.rowsOf t = u.data.rowsOf t := by
  obtain ⟨options, row, hresolve, hdata⟩ := exists_data_of_on_run hrun
  obtain ⟨options', row', hresolve', hdata'⟩ := exists_data_of_on_run hrun'
  obtain rfl : options = options' := Except.ok.inj (hresolve.symm.trans hresolve')
  have hseeded := get_of_on_seed_ratings hd hd' hw hseed hseed'
  intro t ht hne
  have hlineage : t ∉ lineage := by
    intro hmem
    cases t <;> first | exact absurd ht (by decide) | exact absurd hmem (by decide)
  have hget : u'.data.get t = u.data.get t := by
    rw [hdata, hdata', get_withRun _ _ t hlineage, get_withRun _ _ t hlineage]
    exact get_normalized_of_ne_ratings hseeded t hne
  rw [Store.rowsOf, Store.rowsOf, hget]

/-- Two worlds in which films have scores, the second of them without a record that has no average,
between others of its dataset: the averages are of the same entries, and the record is a score of
zero, if it is the last one of its film. -/
structure CountsAsZero (r : Rating) (before after : List Rating)
    (score score' : String → Option ℚ) (w w' : World) : Prop where
  averages : AveragesScores score w
  averages' : AveragesScores score' w'
  others : ∀ t ∈ queried, t ≠ .ratings → w'.data.rowsOf t = w.data.rowsOf t
  scores : ∀ id, score id =
    if r.movieId = id ∧ ∀ x ∈ after, x.movieId ≠ id then some 0 else score' id
  /-- The averages of names without the film are the same. -/
  apart : ∀ {κ : Type} [DecidableEq κ] (entries : List (κ × Option String)) (k : κ),
    (k, some r.movieId) ∉ entries →
      averageScore (scored score entries) k = averageScore (scored score' entries) k
  /-- Where the film has no other rating, the total of a name with the film is the same, but mean
  out among as many more as the name has entries of the film. -/
  diluted : (∀ x ∈ before ++ after, x.movieId ≠ r.movieId) →
    ∀ {κ : Type} [DecidableEq κ] (entries : List (κ × Option String)) (k : κ),
      let others := scoresOf (scored score' entries) k
      averageScore (scored score' entries) k = mean (totalScore others) others.length ∧
        averageScore (scored score entries) k =
          mean (totalScore others) (others.length + entries.count (k, some r.movieId))

/-- An accepted dataset with a rating without an average and the same one without this record are
both seeded into fresh tables; after runs that have an answer, the record is averaged as a rating of
zero. -/
theorem countsAsZero_of_on_run {value : Option Json} {source : String} {before after : List Rating}
    {r : Rating} (hparse : parse value source = .ok d) (hratings : d.ratings = before ++ r :: after)
    (hr : r.avgRating = none) (hw : w.Ready) (hfresh : w.data.IsFresh)
    (hresolved : d.IsResolved w.data) :
    ∃ v v', (seed d).on w = (.ok (counts d), v) ∧
      (seed { d with ratings := before ++ after }).on w =
        (.ok (counts { d with ratings := before ++ after }), v') ∧
      ∀ {logger : Journal.Logger} {given : Fields} {report report' : Run} {u u' : World},
        (run logger given).on v = (.ok report, u) → (run logger given).on v' = (.ok report', u') →
          CountsAsZero r before after d.score (score { d with ratings := before ++ after }) u u'
    := by
  obtain ⟨hmovies, hrated⟩ := keeps_of_parse hparse
  have hd : d.Keeps := ⟨hmovies, hrated⟩
  have hsubset : before ++ after ⊆ d.ratings :=
    hratings ▸ ((List.Sublist.refl before).append (List.sublist_cons_self r after)).subset
  have hd' : Keeps { d with ratings := before ++ after } :=
    ⟨hmovies, fun x hx => hrated x (hsubset hx)⟩
  obtain ⟨tally, v, hseed⟩ := (exists_on_seed_iff hd hw hfresh.migrated).2 hresolved
  obtain ⟨tally', v', hseed'⟩ :=
    (exists_on_seed_iff hd' hw hfresh.migrated).2 (hresolved.of_ratings hsubset)
  obtain ⟨-, rfl, -⟩ := (computes_seed _).of_on hw hseed
  obtain ⟨-, rfl, -⟩ := (computes_seed _).of_on hw hseed'
  refine ⟨v, v', hseed, hseed', fun {logger given report report' u u'} hrun hrun' => ?_⟩
  have hscores := score_insert hratings hr
  have hother : ∀ id, id ≠ r.movieId →
      d.score id = score { d with ratings := before ++ after } id := by
    intro id hid
    rw [hscores, if_neg fun h => hid h.1.symm]
  exact {
    averages := averagesScores_of_on_run hd hw hfresh hseed hrun
    averages' := averagesScores_of_on_run hd' hw hfresh hseed' hrun'
    others := rowsOf_of_on_run hd hd' hw hseed hseed' hrun hrun'
    scores := hscores
    apart := fun entries k hk => congrArg (fun cells => average (scoreCells cells))
      (scoresOf_congr hother hk)
    diluted := by
      intro honly κ _ entries k
      have hafter : ∀ x ∈ after, x.movieId ≠ r.movieId :=
        fun x hx => honly x (List.mem_append_right _ hx)
      refine ⟨average_scoreCells _, average_of_zero hother ?_ (score_eq_none honly) entries k⟩
      rw [hscores, if_pos ⟨rfl, hafter⟩] }

theorem countsAsZero_of_gaps : ∃ w v v' u u' report report', w.Ready ∧ w.data.IsFresh ∧
    gapped.IsResolved w.data ∧ parse (some gaps) "films.json" = .ok gapped ∧
    (seed gapped).on w = (.ok (counts gapped), v) ∧ (run .quiet []).on v = (.ok report, u) ∧
    (seed { gapped with ratings := [] }).on w = (.ok (counts { gapped with ratings := [] }), v') ∧
    (run .quiet []).on v' = (.ok report', u') ∧
    CountsAsZero ⟨"tt1", none, none, none⟩ [] [] gapped.score
      (score { gapped with ratings := [] }) u u' ∧
    Regions.ratingByCountry.Reports u [[.text "Norway", .real (.finite 0)]] ∧
    Regions.ratingByCountry.Reports u' [] := by
  have hreturns : Migration.run.returns (World.inMemory .empty [some ⟨0⟩])
      (fun _ w => (seed gapped).returns w (fun _ v => (run .quiet []).returns v fun _ u =>
          valueEntries (u.data.rowsOf .movieCountry) = [("Norway", some "tt1")]) ∧
        (seed { gapped with ratings := [] }).returns w fun _ v' => (run .quiet []).returns v'
          fun _ _ => true) = true := by
    decide +kernel
  obtain ⟨applied, w, hmigrate, hreturns⟩ := Act.exists_on_of_returns hreturns
  obtain ⟨hfirst, hsecond⟩ := of_decide_eq_true hreturns
  obtain ⟨tally, v, hseed, hfirst⟩ := Act.exists_on_of_returns hfirst
  obtain ⟨report, u, hrun, hentries⟩ := Act.exists_on_of_returns hfirst
  obtain ⟨tally', v', hseed', hsecond⟩ := Act.exists_on_of_returns hsecond
  obtain ⟨report', u', hrun', -⟩ := Act.exists_on_of_returns hsecond
  replace hentries := of_decide_eq_true hentries
  obtain ⟨hw, hfresh⟩ := Migration.isFresh_of_on_run ⟨rfl, rfl⟩ rfl hmigrate
  have hresolved : gapped.IsResolved w.data :=
    { genreMovies := List.forall_mem_nil _
      directingMovies := List.forall_mem_nil _
      directingNames := List.forall_mem_nil _
      castingMovies := List.forall_mem_nil _
      castingNames := List.forall_mem_nil _
      ratingMovies := List.forall_mem_singleton.2 (Or.inl ⟨_, List.mem_singleton_self _, rfl⟩) }
  obtain ⟨x, x', hx, hx', hcounts⟩ :=
    countsAsZero_of_on_run parse_gaps (List.nil_append _).symm rfl hw hfresh hresolved
  obtain ⟨htally, rfl⟩ := Prod.mk.inj (hseed.symm.trans hx)
  obtain ⟨htally', rfl⟩ := Prod.mk.inj (hseed'.symm.trans hx')
  obtain rfl := Except.ok.inj htally
  obtain rfl := Except.ok.inj htally'
  have hzero := hcounts hrun hrun'
  have hsame := hzero.others .movieCountry (by decide) (by decide)
  have hlisted := hzero.averages.countries
  have hlisted' := hzero.averages'.countries
  rw [hentries] at hlisted
  rw [hsame, hentries] at hlisted'
  have haverage : rounded 2 (averageScore (scored gapped.score [("Norway", some "tt1")]) "Norway") =
      .real (.finite 0) := by
    decide +kernel
  have hreports : Regions.ratingByCountry.Reports u [[.text "Norway", rounded 2 _]] :=
    hlisted.reports rfl le_rfl
  rw [haverage] at hreports
  exact ⟨w, v, v', u, u', report, report', hw, hfresh, hresolved, parse_gaps, hseed, hrun, hseed',
    hrun', hzero, hreports, hlisted'.reports rfl (Nat.zero_le 1)⟩

end Runs

end FilmReport.Query
