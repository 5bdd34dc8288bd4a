import FilmReport.Proofs.Store.Typed
import FilmReport.Proofs.Query.Catalog.Rankings

/-!
Movies that are rated above the average of a genre. The query joins rated movies with their genres
and these with a table of averages, and lists the first thousand of what is above: each pair of a
movie and a genre is one row of the whole ranking, and what is left out of the listing comes after
all that is listed (`ListsAbove`).
-/

set_option autoImplicit false
set_option relaxedAutoImplicit false

namespace FilmReport.Query

namespace Genres

open Store

/-- A rated movie with one of its genres. -/
abbrev Entry := (MovieRow × RatingRow) × GenreRow

namespace Entry

/-- The movie and the genre of an entry. -/
def pair (x : Entry) : Option String × String :=
  (x.1.1.id, x.2.genre)

/-- What the query shows of an entry. -/
def cells (x : Entry) : List Cell :=
  [.text x.1.1.title, .text x.2.genre, x.1.2.avgRating]

/-- The order of the listing: by genre, then by rating, the greatest first, then by title. -/
def Precedes (x y : Entry) : Prop :=
  x.2.genre < y.2.genre ∨ x.2.genre = y.2.genre ∧
    (y.1.2.avgRating.rank < x.1.2.avgRating.rank ∨
      x.1.2.avgRating.rank = y.1.2.avgRating.rank ∧ x.1.1.title ≤ y.1.1.title)

end Entry

/-- The average rating of the movies of a genre. -/
def averageOfGenre (s : Store) (genre : String) : Cell :=
  averageOf (·.1.genre) (genreRatings s) genre

/-- The entries whose ratings are above the averages of their genres. -/
def entriesAbove (s : Store) : List Entry :=
  (ratedGenres s).filter fun x => x.1.2.avgRating.above (averageOfGenre s x.2.genre)

section Entries

variable {s : Store}

theorem mem_ratedGenres {m : MovieRow} {r : RatingRow} {g : GenreRow} :
    ((m, r), g) ∈ ratedGenres s ↔ m ∈ s.rowsOf .movie ∧ r ∈ s.rowsOf .ratings ∧
      g ∈ s.rowsOf .genre ∧ m.id = some g.movieId ∧ r.movieId = some g.movieId := by
  rw [ratedGenres, mem_join, ratedMovies, mem_join]
  simp only [Bool.and_eq_true, decide_eq_true_eq]
  constructor
  · rintro ⟨⟨hm, hr, -, hrating⟩, hg, hgenre⟩
    exact ⟨hm, hr, hg, hgenre, hrating.symm.trans hgenre⟩
  · rintro ⟨hm, hr, hg, hgenre, hrating⟩
    exact ⟨⟨hm, hr, by rw [hgenre]; rfl, hgenre.trans hrating.symm⟩, hg, hgenre⟩

theorem mem_entriesAbove {m : MovieRow} {r : RatingRow} {g : GenreRow} :
    ((m, r), g) ∈ entriesAbove s ↔ m ∈ s.rowsOf .movie ∧ r ∈ s.rowsOf .ratings ∧
      g ∈ s.rowsOf .genre ∧ m.id = some g.movieId ∧ r.movieId = some g.movieId ∧
        r.avgRating.above (averageOfGenre s g.genre) = true := by
  rw [entriesAbove, List.mem_filter, mem_ratedGenres]
  simp only [and_assoc]

/-- A movie has one rating and each of its genres once. -/
theorem nodup_pairs (h : s.Intact) : ((entriesAbove s).map Entry.pair).Nodup := by
  have hentries : (ratedGenres s).Nodup :=
    nodup_join (nodup_join h.movieIds.of_map h.ratedMovies.of_map _) h.genres.of_map _
  refine (hentries.filter _).map_on ?_
  rintro ⟨⟨m, r⟩, g⟩ hx ⟨⟨m', r'⟩, g'⟩ hy hpair
  obtain ⟨hm, hr, hg, hgenre, hrating, -⟩ := mem_entriesAbove.1 hx
  obtain ⟨hm', hr', hg', hgenre', hrating', -⟩ := mem_entriesAbove.1 hy
  obtain ⟨hid, hname⟩ := Prod.mk.inj hpair
  have hmovie : g.movieId = g'.movieId :=
    Option.some.inj (hgenre.symm.trans (hid.trans hgenre'))
  obtain rfl := List.inj_on_of_nodup_map h.movieIds hm hm' hid
  obtain rfl := List.inj_on_of_nodup_map h.ratedMovies hr hr'
    (hrating.trans ((congrArg some hmovie).trans hrating'.symm))
  obtain rfl := List.inj_on_of_nodup_map h.genres hg hg' (Prod.ext hmovie hname)
  rfl

/-- Each entry is compared with the average of its own genre. -/
theorem rows_eq_map_cells (s : Store) :
    ((join (ratedGenres s) (genreAverages s) fun (_, g) row =>
      Cell.same (.text g.genre) (cellAt row 0)).filter fun ((mr, _), row) =>
        Cell.above mr.2.avgRating (cellAt row 1)).map (fun (((m, r), g), _) =>
          [.text m.title, .text g.genre, r.avgRating]) = (entriesAbove s).map Entry.cells := by
  have hcode : Function.Injective fun name : String => [Cell.text name] :=
    fun _ _ hcells => Cell.text.inj (List.head_eq_of_cons_eq hcells)
  obtain ⟨names, hnodup, hmem, haverages⟩ := exists_groups
    (fun x : GenreRow × RatingRow => [.text x.1.genre]) (·.1.genre) hcode (fun _ => rfl)
    (fun part => [averageRating part]) (genreRatings s)
  let row : String → List Cell := fun name => [.text name, averageOfGenre s name]
  have hrows : genreAverages s = names.map row := haverages
  have hone : ∀ x ∈ ratedGenres s, (genreAverages s).filter
      (fun row => Cell.same (.text x.2.genre) (cellAt row 0)) = [row x.2.genre] := by
    rintro ⟨⟨m, r⟩, g⟩ hx
    obtain ⟨-, hr, hg, -, hrating⟩ := mem_ratedGenres.1 hx
    have hname : g.genre ∈ names :=
      (hmem g.genre).2 ⟨(g, r), mem_join.2 ⟨hg, hr, decide_eq_true hrating⟩, rfl⟩
    have hsame : ∀ name, Cell.same (.text g.genre) (cellAt (row name) 0) = (name == g.genre) := by
      intro name
      rw [Bool.eq_iff_iff, beq_iff_eq]
      exact Cell.same_text_iff.trans eq_comm
    rw [hrows, List.filter_map]
    simp only [Function.comp_def, hsame]
    rw [List.filter_beq, List.count_eq_one_of_mem hnodup hname]
    rfl
  rw [join_eq_map hone, List.filter_map, List.map_map]
  rfl

end Entries

/-- The listing of a world, the first thousand entries, and the rest of all that are above. -/
structure ListsAbove (w : World) (listed rest : List Entry) : Prop where
  mem : ∀ m r g, ((m, r), g) ∈ listed ++ rest ↔ m ∈ w.data.rowsOf .movie ∧
    r ∈ w.data.rowsOf .ratings ∧ g ∈ w.data.rowsOf .genre ∧
      m.id = some g.movieId ∧ r.movieId = some g.movieId ∧
        r.avgRating.above (averageOfGenre w.data g.genre) = true
  once : ((listed ++ rest).map Entry.pair).Nodup
  sorted : (listed ++ rest).Pairwise Entry.Precedes
  length : listed.length = min 1000 (listed ++ rest).length
  reports : aboveAverage.Reports w (listed.map Entry.cells)

section Listing

variable {w : World}

def orderKeys (x : Entry) : List SortKey :=
  [By.up 1, By.down 2, By.up 0].map (By.key x.cells)

theorem precedes_of_rankBy_le {x y : Entry} (h : rankBy orderKeys x ≤ rankBy orderKeys y) :
    x.Precedes y := by
  have hless : rankBy orderKeys y < rankBy orderKeys x ↔ y.2.genre < x.2.genre ∨
      y.2.genre = x.2.genre ∧ (x.1.2.avgRating.rank < y.1.2.avgRating.rank ∨
        y.1.2.avgRating.rank = x.1.2.avgRating.rank ∧ y.1.1.title < x.1.1.title) := by
    simp [rankBy, orderKeys, Entry.cells, By.key, cellAt, SortKey.rank, Cell.rank,
      List.cons_lt_cons_iff, Prod.Lex.toLex_lt_toLex, -String.lt_iff_ltb]
  have hnot := mt hless.2 (not_lt.2 h)
  rcases lt_trichotomy x.2.genre y.2.genre with hgenre | hgenre | hgenre
  · exact .inl hgenre
  · refine .inr ⟨hgenre, ?_⟩
    rcases lt_trichotomy y.1.2.avgRating.rank x.1.2.avgRating.rank with hrating | hrating | hrating
    · exact .inl hrating
    · refine .inr ⟨hrating.symm, not_lt.1 fun htitle => ?_⟩
      exact hnot (.inr ⟨hgenre.symm, .inr ⟨hrating, htitle⟩⟩)
    · exact absurd (.inr ⟨hgenre.symm, .inl hrating⟩) hnot
  · exact absurd (.inl hgenre) hnot

theorem rows_aboveAverage (p : Params) (s : Store) : aboveAverage.statement.rows p s =
    (((orderBy orderKeys (entriesAbove s)).take 1000).map Entry.cells).map (List.map .cell) := by
  have hsorted : (sortBy [.up 1, .down 2, .up 0] ((entriesAbove s).map Entry.cells)).take 1000 =
      ((orderBy orderKeys (entriesAbove s)).take 1000).map Entry.cells := by
    rw [sortBy, orderBy_map, List.map_take]
    rfl
  rw [← hsorted, ← rows_eq_map_cells]
  rfl

/-- The query lists, in order, the first thousand pairs of a movie and a genre of it whose average
the movie is rated above; up to a thousand of them are all listed. -/
theorem aboveAverage_listsAbove (hw : Askable w) (h : w.data.Intact) :
    ∃ listed rest, ListsAbove w listed rest ∧
      ((entriesAbove w.data).length ≤ 1000 → rest = []) := by
  have hperm := orderBy_perm orderKeys (entriesAbove w.data)
  have hnan : ∀ x ∈ entriesAbove w.data, ∀ k ∈ orderKeys x, k.cell ≠ .real .nan := by
    rintro ⟨⟨m, r⟩, g⟩ hx
    obtain ⟨-, hr, -⟩ := mem_entriesAbove.1 hx
    have hrating : r.avgRating ≠ .real .nan := by
      intro hrating
      have hfrom := (h.averages r hr).1
      rw [hrating] at hfrom
      exact hfrom
    simp [orderKeys, Entry.cells, By.key, SortKey.cell, cellAt, hrating]
  let sorted := orderBy orderKeys (entriesAbove w.data)
  refine ⟨sorted.take 1000, sorted.drop 1000, ⟨?_, ?_, ?_, ?_, ?_⟩, fun hfew => ?_⟩
  · intro m r g
    rw [List.take_append_drop, hperm.mem_iff, mem_entriesAbove]
  · rw [List.take_append_drop, (hperm.map _).nodup_iff]
    exact nodup_pairs h
  · rw [List.take_append_drop]
    exact (pairwise_orderBy hnan).imp precedes_of_rankBy_le
  · rw [List.take_append_drop, List.length_take]
  · refine reports_of_rows (by simp [catalog]) hw (fun p => rows_aboveAverage p w.data) ?_
    rw [List.forall_mem_map]
    exact fun _ _ => le_rfl
  · rw [List.drop_eq_nil_iff, hperm.length_eq]
    exact hfew

/-- Two movies. -/
def alphaAndBeta : List MovieRow :=
  [⟨some "a", "Alpha", .null, none, .null, none, none, none, none, .null⟩,
   ⟨some "b", "Beta", .null, none, .null, none, none, none, none, .null⟩]

/-- Their ratings, of which the first is the higher one. -/
def nineAndOne : List RatingRow :=
  [⟨some "a", .real (.finite 9), .null, .null⟩, ⟨some "b", .real (.finite 1), .null, .null⟩]

/-- Their genres, all of which they share. -/
def sharedGenres (names : List String) : List GenreRow :=
  names.map (⟨"a", ·⟩) ++ names.map (⟨"b", ·⟩)

/-- Two movies that have all of some genres. -/
def crowd (names : List String) : World :=
  World.inMemory
    { Store.empty with
      movie := some (numberedFrom 1 alphaAndBeta)
      genre := some (numberedFrom 1 (sharedGenres names))
      names := some []
      directorMapping := some []
      roleMapping := some []
      ratings := some (numberedFrom 1 nineAndOne)
      movieCountry := some []
      movieLanguage := some []
      hasAmount := true } []

section Crowd

variable {names : List String}

theorem rowsOf_genre_crowd : (crowd names).data.rowsOf .genre = sharedGenres names :=
  map_row_numberedFrom _ _

theorem askable_crowd : Askable (crowd names) := by
  refine ⟨rfl, ?_, rfl⟩
  simp only [queried, List.forall_mem_cons]
  exact ⟨rfl, rfl, rfl, rfl, rfl, rfl, rfl, rfl, List.forall_mem_nil _⟩

theorem intact_crowd (h : names.Nodup) : (crowd names).data.Intact := by
  have hmovies : (crowd names).data.rowsOf .movie = alphaAndBeta := rfl
  have hratings : (crowd names).data.rowsOf .ratings = nineAndOne := rfl
  have hplaced : (crowd names).data.placedRows = [[], [], [], []] := rfl
  have hlive : (crowd names).data.liveRows = [[], []] := rfl
  have hids : (crowd names).data.identifiers .movie = ["a", "b"] := rfl
  refine
    { movieIds := by rw [hmovies]; decide
      nameIds := List.nodup_nil
      ratedMovies := by rw [hratings]; decide
      directings := List.nodup_nil
      castings := List.nodup_nil
      directingMovies := fun _ hd => absurd hd List.not_mem_nil
      directingNames := fun _ hd => absurd hd List.not_mem_nil
      castingMovies := fun _ hc => absurd hc List.not_mem_nil
      castingNames := fun _ hc => absurd hc List.not_mem_nil
      categories := fun _ hc => absurd hc List.not_mem_nil
      places := by rw [hplaced]; simp
      liveMovies := by rw [hlive]; simp
      positions := by rw [hplaced]; simp
      ratingMovies := by rw [hratings, hids]; decide
      durations := by rw [hmovies]; simp [alphaAndBeta, Cell.IsFrom]
      averages := by
        rw [hratings]
        norm_num [nineAndOne, Cell.IsFrom, Cell.IsUpTo]
      medians := by rw [hratings]; simp [nineAndOne, Cell.IsFrom, Cell.IsUpTo]
      votes := by rw [hratings]; simp [nineAndOne, Cell.IsFrom]
      genres := ?_
      genreMovies := ?_ }
  · rw [rowsOf_genre_crowd, sharedGenres, List.map_append, List.map_map, List.map_map]
    refine (h.map fun _ _ hpair => (Prod.mk.inj hpair).2).append
      (h.map fun _ _ hpair => (Prod.mk.inj hpair).2) ?_
    simp [List.Disjoint]
  · rw [rowsOf_genre_crowd, hids]
    simp [sharedGenres, or_imp, forall_and]

theorem averageOfGenre_crowd (h : names.Nodup) {name : String} (hname : name ∈ names) :
    averageOfGenre (crowd names).data name = .real (.finite 5) := by
  have hone : names.filter (· = name) = [name] := by
    rw [List.filter_eq, List.count_eq_one_of_mem h hname]
    rfl
  have hgenres : (sharedGenres names).filter (fun g => g.genre = name) =
      [⟨"a", name⟩, ⟨"b", name⟩] := by
    rw [sharedGenres, List.filter_append, List.filter_map, List.filter_map]
    simp only [Function.comp_def, hone]
    rfl
  have hratings : (crowd names).data.rowsOf .ratings = nineAndOne := rfl
  have haverage : average [.real (.finite 9), .real (.finite 1)] = .real (.finite 5) := by
    decide +kernel
  rw [averageOfGenre, averageOf, genreRatings, rowsOf_genre_crowd, hratings,
    filter_join _ _ _ fun g : GenreRow => decide (g.genre = name), hgenres, ← haverage]
  simp [join, nineAndOne, averageRating]

/-- One of the movies is above the average of every genre. -/
theorem length_entriesAbove_crowd (h : names.Nodup) :
    (entriesAbove (crowd names).data).length = names.length := by
  have hnine : Cell.above (.real (.finite 9)) (.real (.finite 5)) = true := by decide +kernel
  have hone : Cell.above (.real (.finite 1)) (.real (.finite 5)) = false := by decide +kernel
  have hrated : ratedMovies (crowd names).data = join alphaAndBeta nineAndOne fun m r =>
    m.id.isSome && m.id = r.movieId := rfl
  have habove : ∀ x ∈ ratedGenres (crowd names).data,
      x.1.2.avgRating.above (averageOfGenre (crowd names).data x.2.genre) =
        x.1.2.avgRating.above (.real (.finite 5)) := by
    rintro ⟨⟨m, r⟩, g⟩ hx
    have hg := (mem_ratedGenres.1 hx).2.2.1
    rw [rowsOf_genre_crowd, sharedGenres] at hg
    have hname : g.genre ∈ names := by
      rcases List.mem_append.1 hg with hg | hg <;>
      · obtain ⟨name, hname, rfl⟩ := List.mem_map.1 hg
        exact hname
    rw [averageOfGenre_crowd h hname]
  rw [entriesAbove, List.filter_congr habove, ratedGenres, hrated, rowsOf_genre_crowd]
  simp [join, alphaAndBeta, nineAndOne, sharedGenres, List.filter_map, Function.comp_def, hnine,
    hone]

end Crowd

/-- As many names as there are numbers below a bound, no two of one length. -/
def namesBelow (n : Nat) : List String :=
  (List.range n).map fun k => String.ofList (List.replicate (k + 1) 'g')

theorem nodup_namesBelow (n : Nat) : (namesBelow n).Nodup := by
  refine List.nodup_range.map fun j k hnames => ?_
  have hlength := congrArg String.length hnames
  simpa using hlength

theorem length_crowd (n : Nat) : (entriesAbove (crowd (namesBelow n)).data).length = n := by
  rw [length_entriesAbove_crowd (nodup_namesBelow n), namesBelow, List.length_map,
    List.length_range]

/-- A thousand and one genres are one too many: the movie above all their averages is not listed for
the last of them. -/
theorem aboveAverage_listsAbove_crowd :
    ∃ listed rest, ListsAbove (crowd (namesBelow 1001)) listed rest ∧ listed.length = 1000 ∧
      rest.length = 1 := by
  have hintact := intact_crowd (nodup_namesBelow 1001)
  obtain ⟨listed, rest, hlists, -⟩ := aboveAverage_listsAbove askable_crowd hintact
  have hperm : (listed ++ rest).Perm (entriesAbove (crowd (namesBelow 1001)).data) := by
    refine (List.perm_ext_iff_of_nodup hlists.once.of_map (nodup_pairs hintact).of_map).2 ?_
    rintro ⟨⟨m, r⟩, g⟩
    rw [hlists.mem, mem_entriesAbove]
  have hall := hperm.length_eq.trans (length_crowd 1001)
  have hlisted : listed.length = 1000 := by
    rw [hlists.length, hall]
    rfl
  rw [List.length_append, hlisted] at hall
  exact ⟨listed, rest, hlists, hlisted, Nat.add_left_cancel hall⟩

/-- Not every pair of a movie and a genre whose average it is rated above is listed. -/
theorem exists_unlisted : ∃ w, Askable w ∧ w.data.Intact ∧ ¬ ∃ rows,
    aboveAverage.Reports w rows ∧ rows.Perm ((entriesAbove w.data).map Entry.cells) := by
  refine ⟨crowd (namesBelow 1001), askable_crowd, intact_crowd (nodup_namesBelow 1001), ?_⟩
  rintro ⟨rows, hreports, hperm⟩
  have hrows := congrArg List.length (hreports.statement .standard)
  rw [rows_aboveAverage, List.length_map, List.length_map, List.length_map, List.length_take,
    (orderBy_perm _ _).length_eq, hperm.length_eq, List.length_map, length_crowd] at hrows
  exact absurd hrows (by decide)

end Listing

end Genres
end FilmReport.Query
